import BeaconDuties.Proofs.Subnet.Rotation

/-!
# Refusal — constants that leave a node without subnets

The constants of subnets are checked by the operations that use them, whether or not the network was
validated before.  The subnet in one place of a node and the slot in which the node leaves its
subnets are refused for the same constants, and for the same fault of them.  The list of all places
checks the constants once per place, so it notices the fault if there is a place; with no places it
is empty under any constants.

* `Networking.Faulty` — the constants that are refused;
* `SubnetParams.ofNetworking_of_faulty`, `SubnetParams.ofNetworking_of_not_faulty` — the check;
* `subscribedSubnetsFrom_of_error` — a fault ends the list at its first place;
* `subscribedSubnets_refuses` — what is refused, for all constants;
* `subscribedSubnets_of_no_places` — an empty list under constants without subnets.
-/

namespace BeaconDuties

/-! ## The check -/

/-- There are no subnets, or periods of no epochs, or a prefix that is empty or wider than 32
bits. -/
def Networking.Faulty (networking : Networking) : Prop :=
  networking.attestationSubnetCount = 0 ∨ networking.epochsPerSubnetSubscription = 0 ∨
    ¬ (1 ≤ networking.attestationSubnetPrefixBits.toNat ∧
      networking.attestationSubnetPrefixBits.toNat ≤ 32)

/-- The prefix is refused as a word of 8 bits just if it is refused as a number. -/
theorem Networking.prefixBits_refused_iff (networking : Networking) :
    (networking.attestationSubnetPrefixBits = 0 ∨ 32 < networking.attestationSubnetPrefixBits) ↔
      ¬ (1 ≤ networking.attestationSubnetPrefixBits.toNat ∧
        networking.attestationSubnetPrefixBits.toNat ≤ 32) := by
  have hword : (32 : UInt8).toNat = 32 := rfl
  rw [← UInt8.toNat_inj, UInt8.lt_iff_toNat_lt, hword, UInt8.toNat_zero]
  omega

namespace SubnetParams

variable {networking : Networking}

theorem ofNetworking_of_faulty (hfaulty : networking.Faulty) :
    ∃ fault, ofNetworking networking = .error (.invalidArgument fault) := by
  rw [ofNetworking]
  split_ifs with hcount hlength hbits
  · exact ⟨_, rfl⟩
  · exact ⟨_, rfl⟩
  · exact ⟨_, rfl⟩
  · rw [Networking.prefixBits_refused_iff] at hbits
    rcases hfaulty with hnone | hnone | hprefix
    · exact absurd hnone hcount
    · exact absurd hnone hlength
    · exact absurd hprefix hbits

theorem ofNetworking_of_not_faulty (hsound : ¬ networking.Faulty) :
    ofNetworking networking = .ok networking.subnetParams := by
  rcases not_or.1 hsound with ⟨hcount, hrest⟩
  rcases not_or.1 hrest with ⟨hlength, hprefix⟩
  rw [← Networking.prefixBits_refused_iff] at hprefix
  rw [ofNetworking, if_neg hcount, if_neg hlength, if_neg hprefix, Networking.subnetParams]

end SubnetParams

/-! ## Operations under refused constants -/

section Refused

variable {networking : Networking} {cause : DutyError}

theorem subscribedSubnet_of_error (herror : SubnetParams.ofNetworking networking = .error cause)
    (node : NodeId) (epoch : Epoch) (index : UInt64) (rounds : UInt8) :
    subscribedSubnet node epoch index networking rounds = .error cause := by
  rw [subscribedSubnet, herror]

/-- The constants are checked for the first place already, if there is one. -/
theorem subscribedSubnetsFrom_of_error
    (herror : SubnetParams.ofNetworking networking = .error cause) (node : NodeId) (epoch : Epoch)
    (rounds : UInt8) {remaining : Nat} (hsome : remaining ≠ 0) (index : UInt64) :
    subscribedSubnetsFrom node epoch networking rounds remaining index = .error cause := by
  cases remaining with
  | zero => exact absurd rfl hsome
  | succ remaining =>
    rw [subscribedSubnetsFrom, subscribedSubnet_of_error herror]

theorem subscribedSubnets_of_error (herror : SubnetParams.ofNetworking networking = .error cause)
    (node : NodeId) (epoch : Epoch) (rounds : UInt8) (hsome : networking.subnetsPerNode ≠ 0) :
    subscribedSubnets node epoch networking rounds = .error cause := by
  have hplaces : networking.subnetsPerNode.toNat ≠ 0 :=
    fun hzero => hsome (UInt64.toNat_inj.1 hzero)
  exact subscribedSubnetsFrom_of_error herror node epoch rounds hplaces 0

/-- Without places nothing is checked. -/
theorem subscribedSubnets_of_perNode_eq_zero (node : NodeId) (epoch : Epoch) (rounds : UInt8)
    (hnone : networking.subnetsPerNode = 0) :
    subscribedSubnets node epoch networking rounds = .ok [] := by
  rw [subscribedSubnets, hnone]
  rfl

theorem unsubscriptionSlot_of_error (herror : SubnetParams.ofNetworking networking = .error cause)
    (node : NodeId) (slot : Slot) (clock : EpochClock) :
    unsubscriptionSlot node slot networking clock = .error cause := by
  rw [unsubscriptionSlot, herror]
  rfl

end Refused

/-! ## What is refused -/

/-- Constants without subnets, with periods of no epochs, or with a prefix not between 1 and 32 bits
have a fault for which the slot of leaving is refused and so is the subnet in every place, and also
the list of all places unless a node has none.  Under other constants slot and list are always
found.  A node without places has the empty list under all constants. -/
theorem subscribedSubnets_refuses (node : NodeId) (epoch : Epoch) (slot : Slot) (rounds : UInt8)
    (clock : EpochClock) (networking : Networking) :
    let bits := networking.attestationSubnetPrefixBits.toNat
    let faulty := networking.attestationSubnetCount = 0 ∨
      networking.epochsPerSubnetSubscription = 0 ∨ ¬ (1 ≤ bits ∧ bits ≤ 32)
    (faulty → ∃ fault,
      unsubscriptionSlot node slot networking clock = .error (.invalidArgument fault) ∧
      (∀ index,
        subscribedSubnet node epoch index networking rounds = .error (.invalidArgument fault)) ∧
      (networking.subnetsPerNode ≠ 0 →
        subscribedSubnets node epoch networking rounds = .error (.invalidArgument fault))) ∧
    (¬ faulty →
      (∃ leaving, unsubscriptionSlot node slot networking clock = .ok leaving) ∧
      ∃ subnets, subscribedSubnets node epoch networking rounds = .ok subnets) ∧
    (networking.subnetsPerNode = 0 →
      subscribedSubnets node epoch networking rounds = .ok []) := by
  intro bits faulty
  refine ⟨?_, ?_, subscribedSubnets_of_perNode_eq_zero node epoch rounds⟩
  · intro hfaulty
    rcases SubnetParams.ofNetworking_of_faulty hfaulty with ⟨fault, herror⟩
    exact ⟨fault, unsubscriptionSlot_of_error herror node slot clock,
      fun index => subscribedSubnet_of_error herror node epoch index rounds,
      subscribedSubnets_of_error herror node epoch rounds⟩
  · intro hsound
    have hparams := SubnetParams.ofNetworking_of_not_faulty hsound
    have hbits : networking.subnetParams.prefixBits.toNat ≤ 32 :=
      (not_not.1 (not_or.1 (not_or.1 hsound).2).2).2
    exact ⟨⟨_, unsubscriptionSlot_eq hparams node slot clock⟩,
      subscribedSubnetsFrom_eq_ok hparams hbits node epoch rounds _ 0⟩

/-- A prefix of 33 bits is refused by both operations for the same fault. -/
theorem subscribedSubnets_refuses_wide :
    let networking : Networking := { Networking.standard with attestationSubnetPrefixBits := 33 }
    ∃ clock fault, EpochClock.ofParts 32 12 4 = .ok clock ∧
      unsubscriptionSlot 0 0 networking clock = .error (.invalidArgument fault) ∧
      networking.subnetsPerNode ≠ 0 ∧
      subscribedSubnets 0 0 networking 90 = .error (.invalidArgument fault) := by
  intro networking
  let clock : EpochClock := ⟨32, 12, 4, by decide, by decide⟩
  have hsome : networking.subnetsPerNode ≠ 0 := by decide
  rcases (subscribedSubnets_refuses 0 0 0 90 clock networking).1 (.inr (.inr (by decide))) with
    ⟨fault, hslot, _, hlist⟩
  exact ⟨clock, fault, rfl, hslot, hsome, hlist hsome⟩

/-- Without subnets the slot of leaving is refused, but a node without places has its empty list. -/
theorem subscribedSubnets_of_no_places :
    let networking : Networking :=
      { Networking.standard with attestationSubnetCount := 0, subnetsPerNode := 0 }
    ∃ clock, EpochClock.ofParts 32 12 4 = .ok clock ∧
      networking.attestationSubnetCount = 0 ∧
      unsubscriptionSlot 0 0 networking clock = .error (.invalidArgument .noSubnets) ∧
      subscribedSubnets 0 0 networking 90 = .ok [] :=
  ⟨⟨32, 12, 4, by decide, by decide⟩, rfl, rfl, rfl, rfl⟩

end BeaconDuties
