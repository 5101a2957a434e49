import BeaconDuties.Proofs.Subnet.Rotation

/-!
# LastEpochs — the slot in which a node leaves, up to the largest word

The epoch in which a node leaves its subnets is found by way of the next multiple of the period
length, from which the node's offset is taken off.  As long as that multiple is a word, the slot
that is answered is the exact one, or the largest word if the exact one is none.  Otherwise the
multiple is cut off before the offset is taken off, and the epoch found need not start a period: it
can come before the next one that does, or pass over it.  That takes epochs of a single slot, since
with two of them a slot lies too early for a multiple beyond the words.

* `isLeast_nextStart` — the start of the next period, said without a division;
* `SubnetParams.toNat_nextPeriodEpoch_of_lt` — the epoch found if the multiple is cut off;
* `EpochClock.nextMultiple_le` — with two slots per epoch no multiple is;
* `unsubscriptionSlot_saturates` — the slot, for all valid constants and all slots;
* `unsubscriptionSlot_precedes_start` — a slot in which the node would keep its subnets.
-/

namespace BeaconDuties

/-- The next period starts in the first later epoch that the offset takes to a multiple of the
length. -/
theorem isLeast_nextStart {length offset : Nat} (hoffset : offset < length) (epoch : Nat) :
    IsLeast {next | epoch < next ∧ length ∣ next + offset}
      (length * ((epoch + offset) / length + 1) - offset) := by
  have hlength : 0 < length := Nat.zero_lt_of_lt hoffset
  constructor
  · refine ⟨lt_nextStart hoffset epoch, ?_⟩
    have hshift : offset ≤ length * ((epoch + offset) / length + 1) :=
      hoffset.le.trans (Nat.le_mul_of_pos_right length (Nat.succ_pos _))
    rw [Nat.sub_add_cancel hshift]
    exact Nat.dvd_mul_right length _
  · rintro next ⟨hlater, number, hnumber⟩
    -- A later multiple has a larger number, and the least larger one is the successor.
    have hlarger : (epoch + offset) / length < number := by
      rw [Nat.div_lt_iff_lt_mul hlength, Nat.mul_comm, ← hnumber]
      omega
    have hmultiple : length * ((epoch + offset) / length + 1) ≤ next + offset := by
      rw [hnumber]
      exact Nat.mul_le_mul_left length hlarger
    omega

namespace SubnetParams

variable {params : SubnetParams} {epoch : Epoch}

/-- If the next multiple of the length is cut off, the offset is taken off the largest word, and
what has passed then is moved to the largest word. -/
theorem toNat_nextPeriodEpoch_of_lt (hlength : 0 < params.periodEpochs.toNat) (node : NodeId)
    (hmultiple : Saturating.maxWord <
      params.periodEpochs.toNat * (epoch.toNat / params.periodEpochs.toNat + 1)) :
    (params.nextPeriodEpoch node epoch).toNat =
      if epoch.toNat < Saturating.maxWord - node.toNat % params.periodEpochs.toNat
      then Saturating.maxWord - node.toNat % params.periodEpochs.toNat
      else Saturating.maxWord := by
  have hoffset := Nat.mod_lt node.toNat hlength
  have hstart := toNat_startBeforeMultiple hlength node epoch
  rw [Nat.min_eq_right hmultiple.le] at hstart
  rw [nextPeriodEpoch]
  generalize Saturating.sub (Saturating.add epoch
    (params.periodEpochs - epoch % params.periodEpochs)) (params.offset node) = start at hstart ⊢
  rw [← hstart]
  by_cases hpassed : start ≤ epoch
  · have hpassed' : ¬ epoch.toNat < start.toNat := Nat.not_lt.2 (UInt64.le_iff_toNat_le.1 hpassed)
    -- The offset is less than a period, so a period more goes past the largest word.
    have hbeyond : Saturating.maxWord ≤ start.toNat + params.periodEpochs.toNat := by omega
    rw [if_pos hpassed, if_neg hpassed', Saturating.toNat_add, Nat.min_eq_right hbeyond]
  · have hlater : epoch.toNat < start.toNat := UInt64.lt_iff_toNat_lt.1 (UInt64.not_le.1 hpassed)
    rw [if_neg hpassed, if_pos hlater]

end SubnetParams

namespace EpochClock

variable (clock : EpochClock)

/-- With two slots per epoch, the epoch of a slot is at most half the largest word, and no period
that it is in its first one or past ends beyond that word. -/
theorem nextMultiple_le (htwo : 2 ≤ clock.slotsPerEpoch.toNat) (slot : Slot) (length : UInt64) :
    length.toNat * ((clock.epochAt slot).toNat / length.toNat + 1) ≤ Saturating.maxWord := by
  have hslot := Saturating.toNat_le slot
  have hlength := Saturating.toNat_le length
  have hhalf : 2 * (clock.epochAt slot).toNat ≤ slot.toNat := by
    have hfirst := Nat.div_mul_le_self slot.toNat clock.slotsPerEpoch.toNat
    have hdouble := Nat.mul_le_mul_right (slot.toNat / clock.slotsPerEpoch.toNat) htwo
    rw [epochAt, UInt64.toNat_div]
    rw [Nat.mul_comm] at hfirst
    omega
  rcases Nat.lt_or_ge (clock.epochAt slot).toNat length.toNat with hfirst | hlater
  · rwa [Nat.div_eq_of_lt hfirst, Nat.zero_add, Nat.mul_one]
  · have hmultiple := Nat.mul_div_le (clock.epochAt slot).toNat length.toNat
    rw [Nat.mul_add_one]
    omega

/-- Cutting an epoch off does not matter for its first slot, which is cut off as well. -/
theorem toNat_startSlot_of_min {epoch : Epoch} {exact : Nat}
    (hepoch : epoch.toNat = min exact Saturating.maxWord) :
    (clock.startSlot epoch).toNat = min (exact * clock.slotsPerEpoch.toNat) Saturating.maxWord := by
  rw [startSlot, Saturating.toNat_mul, hepoch]
  rcases Nat.le_total exact Saturating.maxWord with hfits | hbeyond
  · rw [Nat.min_eq_left hfits]
  · have hword : Saturating.maxWord ≤ Saturating.maxWord * clock.slotsPerEpoch.toNat :=
      Nat.le_mul_of_pos_right _ clock.toNat_slotsPerEpoch_pos
    have hexact := Nat.mul_le_mul_right clock.slotsPerEpoch.toNat hbeyond
    rw [Nat.min_eq_right hbeyond, Nat.min_eq_right hword,
      Nat.min_eq_right (hword.trans hexact)]

end EpochClock

/-- The slot in which a node leaves its subnets, under valid constants.  If the next multiple of the
period length is a word, in particular if epochs have two slots, it is the first slot of the first
later epoch that the node's offset takes to a multiple of the length, or the largest word if that
slot is beyond it.  Otherwise epochs have one slot, and it is the largest word less the offset if
that is a later epoch, and else the largest word. -/
theorem unsubscriptionSlot_saturates (node : NodeId) (networking : Networking)
    (clock : EpochClock) (slot : Slot) (hvalid : networking.validate = .ok ()) :
    let length := networking.epochsPerSubnetSubscription.toNat
    let offset := node.toNat % length
    let slots := clock.slotsPerEpoch.toNat
    let current := (clock.epochAt slot).toNat
    let multiple := length * (current / length + 1)
    ∃ (next : Nat) (leaving : Slot),
      IsLeast {next | current < next ∧ length ∣ next + offset} next ∧
      unsubscriptionSlot node slot networking clock = .ok leaving ∧
      (2 ≤ slots → multiple < 2 ^ 64) ∧
      (multiple < 2 ^ 64 →
        leaving.toNat = if next * slots < 2 ^ 64 then next * slots else 2 ^ 64 - 1) ∧
      (2 ^ 64 ≤ multiple → slots = 1 ∧ leaving.toNat =
        if current < 2 ^ 64 - 1 - offset then 2 ^ 64 - 1 - offset else 2 ^ 64 - 1) := by
  intro length offset slots current multiple
  let epoch := networking.subnetParams.nextPeriodEpoch node (clock.epochAt slot)
  let next := length * ((current + offset) / length + 1) - offset
  have hmax : Saturating.maxWord = 2 ^ 64 - 1 := rfl
  have hlength : 0 < length := Networking.periodEpochs_pos hvalid
  have hslots : 0 < slots := UInt64.lt_iff_toNat_lt.1 clock.slots_pos
  have htwo : 2 ≤ slots → multiple ≤ Saturating.maxWord := fun htwo =>
    clock.nextMultiple_le htwo slot networking.epochsPerSubnetSubscription
  refine ⟨next, clock.startSlot epoch, isLeast_nextStart (Nat.mod_lt node.toNat hlength) current,
    Networking.unsubscriptionSlot_eq_ok hvalid node slot clock, ?_, ?_, ?_⟩
  · intro hmany
    have hword := htwo hmany
    omega
  · intro hword
    have hepoch : epoch.toNat = min next Saturating.maxWord :=
      SubnetParams.toNat_nextPeriodEpoch_of_le hlength node (Nat.le_sub_one_of_lt hword)
    have hstart : (clock.startSlot epoch).toNat = min (next * slots) Saturating.maxWord :=
      clock.toNat_startSlot_of_min hepoch
    rw [hstart]
    split
    · exact Nat.min_eq_left (by omega)
    · exact Nat.min_eq_right (by omega)
  · intro hbeyond
    have hbeyond' : Saturating.maxWord < multiple := Nat.lt_of_lt_of_le (by decide) hbeyond
    have hone : slots = 1 := by
      by_contra hmany
      have hword := htwo (by omega)
      omega
    have hepoch : epoch.toNat = if current < Saturating.maxWord - offset
        then Saturating.maxWord - offset else Saturating.maxWord :=
      SubnetParams.toNat_nextPeriodEpoch_of_lt hlength node hbeyond'
    have hstart : (clock.startSlot epoch).toNat = min (epoch.toNat * slots) Saturating.maxWord :=
      Saturating.toNat_mul _ _
    rw [hone, Nat.mul_one, Nat.min_eq_left (Saturating.toNat_le epoch)] at hstart
    exact ⟨hone, hstart.trans hepoch⟩

/-- In the last slot of all, with 32 slots per epoch and the usual periods of 256 epochs, the next
period of a node without an offset would start one slot later. -/
theorem unsubscriptionSlot_saturates_last :
    ∃ clock : EpochClock, EpochClock.ofParts 32 12 4 = .ok clock ∧
      Networking.standard.validate = .ok () ∧
      IsLeast {next | (clock.epochAt 18446744073709551615).toNat < next ∧
        Networking.standard.epochsPerSubnetSubscription.toNat ∣ next +
          (0 : NodeId).toNat % Networking.standard.epochsPerSubnetSubscription.toNat}
        576460752303423488 ∧
      576460752303423488 * clock.slotsPerEpoch.toNat = 2 ^ 64 ∧
      unsubscriptionSlot 0 18446744073709551615 .standard clock = .ok 18446744073709551615 := by
  let clock : EpochClock := ⟨32, 12, 4, by decide, by decide⟩
  have hstart : IsLeast {next | (clock.epochAt 18446744073709551615).toNat < next ∧
      Networking.standard.epochsPerSubnetSubscription.toNat ∣ next +
        (0 : NodeId).toNat % Networking.standard.epochsPerSubnetSubscription.toNat}
      576460752303423488 := by
    have hepoch : (clock.epochAt 18446744073709551615).toNat = 576460752303423487 := by decide
    rw [hepoch]
    exact isLeast_nextStart (by decide) 576460752303423487
  rcases unsubscriptionSlot_saturates 0 .standard clock 18446744073709551615 rfl with
    ⟨next, leaving, hleast, hleaving, hword, hexact, _⟩
  have hslot := hexact (hword (by decide))
  rw [hleast.unique hstart] at hslot
  have hlast : leaving = 18446744073709551615 := UInt64.toNat_inj.1 hslot
  rw [hlast] at hleaving
  exact ⟨clock, rfl, rfl, hstart, by decide, hleaving⟩

/-- With one slot per epoch and the usual periods of 256 epochs, a node with offset 50 asks in slot
`2 ^ 64 - 100`.  Its next period starts in slot `2 ^ 64 - 50`, but the answer is the slot before,
in which it still holds the same subnets. -/
theorem unsubscriptionSlot_precedes_start :
    ∃ clock : EpochClock, EpochClock.ofParts 1 12 4 = .ok clock ∧
      Networking.standard.validate = .ok () ∧
      IsLeast {next | (clock.epochAt 18446744073709551516).toNat < next ∧
        Networking.standard.epochsPerSubnetSubscription.toNat ∣ next +
          (50 : NodeId).toNat % Networking.standard.epochsPerSubnetSubscription.toNat}
        18446744073709551566 ∧
      18446744073709551566 * clock.slotsPerEpoch.toNat < 2 ^ 64 ∧
      unsubscriptionSlot 50 18446744073709551516 .standard clock = .ok 18446744073709551565 ∧
      ∀ rounds, subscribedSubnets 50 (clock.epochAt 18446744073709551565) .standard rounds =
        subscribedSubnets 50 (clock.epochAt 18446744073709551516) .standard rounds := by
  refine ⟨⟨1, 12, 4, by decide, by decide⟩, rfl, rfl, ?_, by decide, by cbv, ?_⟩
  · exact isLeast_nextStart (by decide) 18446744073709551516
  · intro rounds
    exact Networking.subscribedSubnets_congr rfl rounds (by decide)

end BeaconDuties
