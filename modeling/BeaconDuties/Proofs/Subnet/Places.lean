import BeaconDuties.Proofs.Subnet.Rotation

/-!
# Places — the subnets of a node follow each other

The subnet in a place of a node is found by adding the number of the place to where the shuffle of
the period puts the leading bits of the node, and reducing the sum modulo the number of subnets.
The sum is a sum of words.  Where it is a word, consecutive places hold consecutive subnets, from
the last one on to the first, and no more places than subnets hold different ones.  Where it is
not, `2 ^ 64` is taken off before the sum is reduced, and the subnet is another one unless the
number of subnets divides `2 ^ 64`.

* `consecutive` — numbers that follow each other, modulo a count;
* `toNat_add_mod`, `mod_size_mod_eq_iff` — the sum of words against the exact sum;
* `subscribedSubnet_wraps` — the subnet in any place, for all valid constants;
* `subscribedSubnet_differs` — a place in which the exact sum gives another subnet;
* `subscribedSubnets_consecutive` — all subnets of a node.
-/

namespace BeaconDuties

/-! ## Consecutive numbers -/

/-- So many numbers that follow each other modulo a count. -/
def consecutive (count first size : Nat) : List Nat :=
  (List.range size).map fun place => (first + place) % count

section Consecutive

variable {count first size : Nat}

theorem length_consecutive : (consecutive count first size).length = size := by
  simp [consecutive]

theorem lt_of_mem_consecutive (hcount : 0 < count) {number : Nat}
    (hmem : number ∈ consecutive count first size) : number < count := by
  rcases List.mem_map.1 hmem with ⟨place, _, rfl⟩
  exact Nat.mod_lt _ hcount

theorem nodup_consecutive (hsize : size ≤ count) : (consecutive count first size).Nodup := by
  apply List.Nodup.map_on _ List.nodup_range
  intro place hplace other hother hsame
  have hplace' := List.mem_range.1 hplace
  have hother' := List.mem_range.1 hother
  -- The common first number drops out, and what is left is below the count.
  have hcongruent : place ≡ other [MOD count] := Nat.ModEq.add_left_cancel' first hsame
  exact Nat.ModEq.eq_of_lt_of_lt hcongruent (by omega) (by omega)

theorem isChain_consecutive (count first size : Nat) :
    (consecutive count first size).IsChain fun number next => next = (number + 1) % count := by
  rw [List.isChain_iff_getElem]
  intro place _
  simp [consecutive, Nat.add_assoc]

theorem consecutive_perm_range (hcount : 0 < count) :
    (consecutive count first count).Perm (List.range count) := by
  apply List.Subperm.perm_of_length_le
  · apply List.subperm_of_subset (nodup_consecutive (Nat.le_refl count))
    intro number hmem
    exact List.mem_range.2 (lt_of_mem_consecutive hcount hmem)
  · rw [length_consecutive, List.length_range]

end Consecutive

/-! ## Sums of words -/

theorem toNat_add_mod (target : Nat) (index count : UInt64) :
    ((UInt64.ofNat target + index) % count).toNat =
      (target + index.toNat) % 2 ^ 64 % count.toNat := by
  simp [UInt64.toNat_mod, UInt64.toNat_add]

/-- Taking `2 ^ 64` off a sum changes its remainder unless the count divides `2 ^ 64`. -/
theorem mod_size_mod_eq_iff {sum count : Nat} (hsum : sum < 2 * 2 ^ 64) :
    sum % 2 ^ 64 % count = sum % count ↔ sum < 2 ^ 64 ∨ count ∣ 2 ^ 64 := by
  rcases Nat.lt_or_ge sum (2 ^ 64) with hword | hbeyond
  · rw [Nat.mod_eq_of_lt hword]
    exact iff_of_true rfl (.inl hword)
  · have hcut : sum % 2 ^ 64 = sum - 2 ^ 64 := by omega
    have hnot : ¬ sum < 2 ^ 64 := Nat.not_lt.2 hbeyond
    have hdvd := Nat.modEq_iff_dvd' (n := count) (Nat.sub_le sum (2 ^ 64))
    rw [Nat.sub_sub_self hbeyond] at hdvd
    rw [hcut, or_iff_right hnot]
    exact hdvd

/-! ## One place -/

/-- The subnet in a place, under valid constants.  It is never refused, and is found from the number
of the place and from where the leading bits of the node are shuffled by the sum of both as words.
That is the exact sum modulo the number of subnets just if the exact sum is a word or the number of
subnets divides `2 ^ 64`. -/
theorem subscribedSubnet_wraps (node : NodeId) (epoch : Epoch) (index : UInt64)
    (networking : Networking) (rounds : UInt8) (hvalid : networking.validate = .ok ()) :
    let length := networking.epochsPerSubnetSubscription.toNat
    let bits := networking.attestationSubnetPrefixBits.toNat
    let count := networking.attestationSubnetCount.toNat
    let number := min (epoch.toNat + node.toNat % length) (2 ^ 64 - 1) / length
    ∃ (target : Nat) (subnet : SubnetId),
      Shuffle.shuffledIndex (node.toNat >>> (256 - bits)) (2 ^ bits)
        (Sha256.hash (Bytes.littleEndian 8 number).toArray) rounds = .ok target ∧
      subscribedSubnet node epoch index networking rounds = .ok subnet ∧
      subnet.toNat = (target + index.toNat) % 2 ^ 64 % count ∧
      (subnet.toNat = (target + index.toNat) % count ↔
        target + index.toNat < 2 ^ 64 ∨ count ∣ 2 ^ 64) := by
  intro length bits count number
  have hbits := Networking.prefixBits_le hvalid
  have hnumber : (networking.subnetParams.period node epoch).toNat = number :=
    SubnetParams.toNat_period_of_min (Networking.periodEpochs_pos hvalid) node epoch
  rcases SubnetParams.placement_eq_ok hbits node epoch rounds with ⟨target, hbound, htarget⟩
  have hsubnet : subscribedSubnet node epoch index networking rounds =
      .ok ((UInt64.ofNat target + index) % networking.attestationSubnetCount) := by
    rw [subscribedSubnet_eq (Networking.ofNetworking_eq_ok hvalid), htarget]
    rfl
  have hsum : target + index.toNat < 2 * 2 ^ 64 := by
    have hsmall := hbound.trans_le (Nat.pow_le_pow_right (by decide) hbits)
    have hindex := index.toNat_lt
    omega
  have hexact := toNat_add_mod target index networking.attestationSubnetCount
  refine ⟨target, _, ?_, hsubnet, hexact, ?_⟩
  · rw [← hnumber, ← Nat.one_shiftLeft]
    exact htarget
  · rw [hexact]
    exact mod_size_mod_eq_iff hsum

/-- With the usual 64 subnets, a number that divides `2 ^ 64`, the last place of all holds the
subnet of the exact sum. -/
theorem subscribedSubnet_wraps_last :
    Networking.standard.validate = .ok () ∧
      ∃ (target : Nat) (subnet : SubnetId),
        Shuffle.shuffledIndex 0 64 (Sha256.hash (Bytes.littleEndian 8 0).toArray) 90 = .ok target ∧
        subscribedSubnet 0 0 18446744073709551615 .standard 90 = .ok subnet ∧
        subnet.toNat = (target + 18446744073709551615) % 64 := by
  rcases subscribedSubnet_wraps 0 0 18446744073709551615 .standard 90 rfl with
    ⟨target, subnet, htarget, hsubnet, _, hexact⟩
  exact ⟨rfl, target, subnet, htarget, hsubnet, hexact.2 (.inr (by decide))⟩

/-- With three subnets, a number that does not divide `2 ^ 64`, a node whose leading bits are
shuffled to 56 holds subnet 1 in the last place of all.  The exact sum would give subnet 2. -/
theorem subscribedSubnet_differs :
    let networking : Networking := { Networking.standard with attestationSubnetCount := 3 }
    networking.validate = .ok () ∧
      Shuffle.shuffledIndex 0 64 (Sha256.hash (Bytes.littleEndian 8 0).toArray) 1 = .ok 56 ∧
      subscribedSubnet 0 0 18446744073709551615 networking 1 = .ok 1 ∧
      (56 + 18446744073709551615) % 3 = 2 := by
  intro networking
  have htarget : Shuffle.shuffledIndex 0 64 (Sha256.hash (Bytes.littleEndian 8 0).toArray) 1 =
      .ok 56 := by
    have hanswer : (Shuffle.shuffledIndex 0 64
        (Sha256.hash (Bytes.littleEndian 8 0).toArray) 1).toOption = some 56 := by decide +kernel
    cases hresult : Shuffle.shuffledIndex 0 64
        (Sha256.hash (Bytes.littleEndian 8 0).toArray) 1 with
    | error cause => simp [hresult, Except.toOption] at hanswer
    | ok target => simpa [hresult, Except.toOption] using hanswer
  have hplacement : networking.subnetParams.placement 0 0 1 = .ok 56 := by
    have hperiod : networking.subnetParams.period 0 0 = 0 := by decide
    rw [SubnetParams.placement, hperiod]
    exact htarget
  have hsubnet : subscribedSubnet 0 0 18446744073709551615 networking 1 = .ok 1 := by
    have hword : (UInt64.ofNat 56 + 18446744073709551615) % 3 = 1 := by decide
    rw [subscribedSubnet_eq (Networking.ofNetworking_eq_ok rfl), hplacement]
    exact congrArg Except.ok hword
  exact ⟨rfl, htarget, hsubnet, by decide⟩

/-! ## All places -/

/-- As long as no sum is cut off, the places of a node hold consecutive subnets. -/
theorem Networking.subscribedSubnets_eq_consecutive {networking : Networking}
    (hvalid : networking.validate = .ok ())
    (hfits : networking.subnetsPerNode.toNat + 2 ^ networking.attestationSubnetPrefixBits.toNat ≤
      2 ^ 64) (node : NodeId) (epoch : Epoch) (rounds : UInt8) :
    ∃ (first : Nat) (subnets : List SubnetId),
      subscribedSubnets node epoch networking rounds = .ok subnets ∧
      subnets.map UInt64.toNat =
        consecutive networking.attestationSubnetCount.toNat first
          networking.subnetsPerNode.toNat := by
  rcases SubnetParams.placement_eq_ok (prefixBits_le hvalid) node epoch rounds with
    ⟨target, hbound, htarget⟩
  have hlist := subscribedSubnetsFrom_eq (ofNetworking_eq_ok hvalid) htarget
    networking.subnetsPerNode.toNat 0
  refine ⟨target, _, hlist, ?_⟩
  rw [List.map_map, consecutive]
  apply List.map_congr_left
  intro place hmem
  have hplace := List.mem_range.1 hmem
  have hsum : target + place < 2 ^ 64 := (Nat.add_lt_add hbound hplace).trans_le (by
    rwa [Nat.add_comm])
  have hword : (UInt64.ofNat place).toNat = place :=
    UInt64.toNat_ofNat_of_lt' ((Nat.le_add_left place target).trans_lt hsum)
  rw [Function.comp_apply, UInt64.zero_add, toNat_add_mod, hword, Nat.mod_eq_of_lt hsum]
  rfl

/-- Under valid constants whose places and prefixes together are no more than a word counts, a node
holds as many subnets as it has places.  All are different, each one is the successor of the one
before it, and with as many places as subnets there are, all subnets are held. -/
theorem subscribedSubnets_consecutive (node : NodeId) (epoch : Epoch) (networking : Networking)
    (rounds : UInt8) (hvalid : networking.validate = .ok ())
    (hfits : networking.subnetsPerNode.toNat + 2 ^ networking.attestationSubnetPrefixBits.toNat ≤
      2 ^ 64) :
    let count := networking.attestationSubnetCount.toNat
    ∃ subnets : List SubnetId,
      subscribedSubnets node epoch networking rounds = .ok subnets ∧
      subnets.length = networking.subnetsPerNode.toNat ∧
      (∀ subnet ∈ subnets, subnet.toNat < count) ∧
      subnets.Nodup ∧
      (subnets.IsChain fun subnet next => next.toNat = (subnet.toNat + 1) % count) ∧
      (networking.subnetsPerNode.toNat = count →
        (subnets.map UInt64.toNat).Perm (List.range count)) := by
  intro count
  have hcount : 0 < count := Networking.subnetCount_pos hvalid
  rcases Networking.validate_eq_ok_iff.1 hvalid with ⟨_, hperNode, _, _⟩
  have hsize : networking.subnetsPerNode.toNat ≤ count := UInt64.le_iff_toNat_le.1 hperNode
  rcases Networking.subscribedSubnets_eq_consecutive hvalid hfits node epoch rounds with
    ⟨first, subnets, hsubnets, hnumbers⟩
  refine ⟨subnets, hsubnets, ?_, ?_, ?_, ?_, ?_⟩
  · rw [← List.length_map, hnumbers, length_consecutive]
  · intro subnet hmem
    have hnumber := List.mem_map_of_mem (f := UInt64.toNat) hmem
    rw [hnumbers] at hnumber
    exact lt_of_mem_consecutive hcount hnumber
  · apply List.Nodup.of_map UInt64.toNat
    rw [hnumbers]
    exact nodup_consecutive hsize
  · have hchain := isChain_consecutive count first networking.subnetsPerNode.toNat
    rwa [← hnumbers, List.isChain_map] at hchain
  · intro hall
    rw [hnumbers, hall]
    exact consecutive_perm_range hcount

/-- A node with 64 places and the usual 64 subnets holds all of them. -/
theorem subscribedSubnets_consecutive_all :
    let networking : Networking := { Networking.standard with subnetsPerNode := 64 }
    networking.validate = .ok () ∧
      networking.subnetsPerNode.toNat + 2 ^ networking.attestationSubnetPrefixBits.toNat ≤ 2 ^ 64 ∧
      ∃ subnets, subscribedSubnets 12345 3 networking 90 = .ok subnets ∧
        (subnets.map UInt64.toNat).Perm (List.range 64) := by
  intro networking
  have hfits : networking.subnetsPerNode.toNat +
      2 ^ networking.attestationSubnetPrefixBits.toNat ≤ 2 ^ 64 := by decide
  rcases subscribedSubnets_consecutive 12345 3 networking 90 rfl hfits with
    ⟨subnets, hsubnets, _, _, _, _, hall⟩
  exact ⟨rfl, hfits, subnets, hsubnets, hall rfl⟩

end BeaconDuties
