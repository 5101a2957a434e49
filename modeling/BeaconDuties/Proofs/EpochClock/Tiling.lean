import BeaconDuties.EpochClock
import Mathlib

/-!
# Tiling — epochs cut the slots into intervals

The first and the last slot of an epoch are cut off at the largest word, the last one even twice.
Both cuts together are one cut of the exact last slot, so asking whether an epoch is over is asking
on which side of its last slot a slot lies, for every epoch.  The first slot answers in the same way
as long as it is exact.  Of the epochs whose first slot is exact the last one may be shorter than
the others, and it ends in the largest word.

* `EpochClock.le_epochAt_iff`, `EpochClock.epochAt_le_iff` — the epoch of a slot by the ends of an
  epoch;
* `EpochClock.toNat_endSlot` — the last slot as a single cut of the exact one;
* `EpochClock.epochs_tile_slots` — each slot lies in one epoch, and neighbours meet.
-/

namespace BeaconDuties

namespace EpochClock

variable (clock : EpochClock) {epoch : Epoch} {slot : Slot}

/-- An epoch has come just if its first slot has. -/
theorem le_epochAt_iff :
    epoch ≤ clock.epochAt slot ↔ epoch.toNat * clock.slotsPerEpoch.toNat ≤ slot.toNat := by
  rw [UInt64.le_iff_toNat_le, epochAt, UInt64.toNat_div,
    Nat.le_div_iff_mul_le clock.toNat_slotsPerEpoch_pos]

/-! ## The ends of an epoch -/

/-- Cutting off the first slot and then the last one is cutting off the exact last slot. -/
theorem toNat_endSlot (epoch : Epoch) :
    (clock.endSlot epoch).toNat =
      min (epoch.toNat * clock.slotsPerEpoch.toNat + (clock.slotsPerEpoch.toNat - 1))
        Saturating.maxWord := by
  have hslots : 1 ≤ clock.slotsPerEpoch := UInt64.le_iff_toNat_le.2 clock.toNat_slotsPerEpoch_pos
  have hlast : (clock.slotsPerEpoch - 1).toNat = clock.slotsPerEpoch.toNat - 1 :=
    UInt64.toNat_sub_of_le _ _ hslots
  rw [endSlot, Saturating.toNat_add, startSlot, Saturating.toNat_mul, hlast]
  omega

/-- An epoch is not yet over just if its last slot has not passed, cut off or not. -/
theorem epochAt_le_iff : clock.epochAt slot ≤ epoch ↔ slot ≤ clock.endSlot epoch := by
  have hslot : slot.toNat ≤ Saturating.maxWord := Saturating.toNat_le slot
  rw [UInt64.le_iff_toNat_le, UInt64.le_iff_toNat_le, toNat_endSlot, epochAt, UInt64.toNat_div,
    Nat.div_le_iff_le_mul_add_pred clock.toNat_slotsPerEpoch_pos, Nat.mul_comm]
  omega

theorem startSlot_le_iff
    (hstart : epoch.toNat * clock.slotsPerEpoch.toNat ≤ Saturating.maxWord) :
    clock.startSlot epoch ≤ slot ↔ epoch ≤ clock.epochAt slot := by
  rw [le_epochAt_iff, UInt64.le_iff_toNat_le, toNat_startSlot_of_le clock hstart]

theorem startSlot_le_endSlot (epoch : Epoch) : clock.startSlot epoch ≤ clock.endSlot epoch := by
  rw [UInt64.le_iff_toNat_le, toNat_endSlot, startSlot, Saturating.toNat_mul]
  omega

/-- A slot between the ends of an epoch lies in that epoch. -/
theorem epochAt_eq_iff (hstart : epoch.toNat * clock.slotsPerEpoch.toNat ≤ Saturating.maxWord) :
    clock.epochAt slot = epoch ↔ clock.startSlot epoch ≤ slot ∧ slot ≤ clock.endSlot epoch := by
  rw [startSlot_le_iff clock hstart, ← epochAt_le_iff]
  constructor
  · rintro rfl
    exact ⟨UInt64.le_refl _, UInt64.le_refl _⟩
  · rintro ⟨hcome, hlasting⟩
    exact UInt64.le_antisymm hlasting hcome

/-- The epoch of a slot has an exact first slot. -/
theorem toNat_epochAt_mul_le (slot : Slot) :
    (clock.epochAt slot).toNat * clock.slotsPerEpoch.toNat ≤ Saturating.maxWord := by
  have hcome := clock.le_epochAt_iff.1 (UInt64.le_refl (clock.epochAt slot))
  exact hcome.trans (Saturating.toNat_le slot)

/-- The next epoch starts right behind an epoch, if it starts in a word. -/
theorem toNat_startSlot_succ
    (hnext : (epoch.toNat + 1) * clock.slotsPerEpoch.toNat ≤ Saturating.maxWord) :
    (epoch + 1).toNat = epoch.toNat + 1 ∧
      (clock.startSlot (epoch + 1)).toNat = (clock.endSlot epoch).toNat + 1 := by
  have hslots := clock.toNat_slotsPerEpoch_pos
  have hbound : epoch.toNat + 1 ≤ Saturating.maxWord :=
    (Nat.le_mul_of_pos_right _ hslots).trans hnext
  have hepoch : (epoch + 1).toNat = epoch.toNat + 1 := by
    rw [UInt64.toNat_add]
    exact Nat.mod_eq_of_lt (Nat.lt_succ_of_le hbound)
  refine ⟨hepoch, ?_⟩
  rw [toNat_startSlot_of_le clock (by rwa [hepoch]), hepoch, toNat_endSlot]
  rw [Nat.add_one_mul] at hnext ⊢
  omega

/-- Epochs cut the slots into intervals.  A slot has come no further than an epoch just if it is not
past the last slot of the epoch, and, for epochs whose first slot is a word, has come as far as the
epoch just if it is not before the first one.  The two ends of such an epoch lie in it, the next
epoch starts right behind it if it starts in a word, and otherwise the epoch ends in the largest
word.  So each slot lies between the ends of exactly one of them. -/
theorem epochs_tile_slots (clock : EpochClock) :
    let slots := clock.slotsPerEpoch.toNat
    (∀ (slot : Slot) (epoch : Epoch), clock.epochAt slot ≤ epoch ↔ slot ≤ clock.endSlot epoch) ∧
    (∀ epoch : Epoch, epoch.toNat * slots < 2 ^ 64 →
      (∀ slot, epoch ≤ clock.epochAt slot ↔ clock.startSlot epoch ≤ slot) ∧
      clock.epochAt (clock.startSlot epoch) = epoch ∧
      clock.epochAt (clock.endSlot epoch) = epoch) ∧
    (∀ epoch : Epoch, (epoch.toNat + 1) * slots < 2 ^ 64 →
      (epoch + 1).toNat = epoch.toNat + 1 ∧
      (clock.startSlot (epoch + 1)).toNat = (clock.endSlot epoch).toNat + 1) ∧
    (∀ epoch : Epoch, 2 ^ 64 ≤ (epoch.toNat + 1) * slots →
      (clock.endSlot epoch).toNat = 2 ^ 64 - 1) ∧
    ∀ slot, ∃! epoch : Epoch, epoch.toNat * slots < 2 ^ 64 ∧
      clock.startSlot epoch ≤ slot ∧ slot ≤ clock.endSlot epoch := by
  intro slots
  have hmax : Saturating.maxWord = 2 ^ 64 - 1 := rfl
  refine ⟨fun slot epoch => clock.epochAt_le_iff, ?_, ?_, ?_, ?_⟩
  · intro epoch hword
    have hstart : epoch.toNat * slots ≤ Saturating.maxWord := Nat.le_sub_one_of_lt hword
    have hends := clock.startSlot_le_endSlot epoch
    refine ⟨fun slot => (clock.startSlot_le_iff hstart).symm, ?_, ?_⟩
    · exact (clock.epochAt_eq_iff hstart).2 ⟨UInt64.le_refl _, hends⟩
    · exact (clock.epochAt_eq_iff hstart).2 ⟨hends, UInt64.le_refl _⟩
  · intro epoch hword
    exact clock.toNat_startSlot_succ (Nat.le_sub_one_of_lt hword)
  · -- The next epoch starts beyond the words, so the last slot of this one is cut off.
    intro epoch hbeyond
    have hslots : 0 < slots := clock.toNat_slotsPerEpoch_pos
    have hend : (clock.endSlot epoch).toNat =
        min (epoch.toNat * slots + (slots - 1)) Saturating.maxWord := clock.toNat_endSlot epoch
    rw [Nat.add_one_mul] at hbeyond
    omega
  · -- The epoch is the one of the slot: its ends enclose the slot, and no other ends do.
    intro slot
    refine ⟨clock.epochAt slot, ⟨?_, ?_⟩, ?_⟩
    · have hstart : (clock.epochAt slot).toNat * slots ≤ Saturating.maxWord :=
        clock.toNat_epochAt_mul_le slot
      omega
    · exact (clock.epochAt_eq_iff (clock.toNat_epochAt_mul_le slot)).1 rfl
    · rintro epoch ⟨hword, hends⟩
      exact ((clock.epochAt_eq_iff (Nat.le_sub_one_of_lt hword)).2 hends).symm

/-- With seven slots per epoch, the last epoch has two of them: its first slot is the last but one
of all, and the next epoch would start beyond the words. -/
theorem epochs_tile_slots_seven :
    ∃ clock : EpochClock, EpochClock.ofParts 7 12 4 = .ok clock ∧
      (2635249153387078802 : Epoch).toNat * clock.slotsPerEpoch.toNat < 2 ^ 64 ∧
      2 ^ 64 ≤ ((2635249153387078802 : Epoch).toNat + 1) * clock.slotsPerEpoch.toNat ∧
      clock.startSlot 2635249153387078802 = 18446744073709551614 ∧
      clock.endSlot 2635249153387078802 = 18446744073709551615 ∧
      clock.epochAt 18446744073709551615 = 2635249153387078802 ∧
      (clock.startSlot 2635249153387078802).toNat =
        (clock.endSlot 2635249153387078801).toNat + 1 := by
  let clock : EpochClock := ⟨7, 12, 4, by decide, by decide⟩
  rcases epochs_tile_slots clock with ⟨_, hends, hnext, hlast, _⟩
  have hword : (2635249153387078802 : Epoch).toNat * clock.slotsPerEpoch.toNat < 2 ^ 64 := by decide
  have hbeyond :
      2 ^ 64 ≤ ((2635249153387078802 : Epoch).toNat + 1) * clock.slotsPerEpoch.toNat := by
    decide
  have hend : clock.endSlot 2635249153387078802 = 18446744073709551615 :=
    UInt64.toNat_inj.1 (hlast 2635249153387078802 hbeyond)
  have hepoch := (hends 2635249153387078802 hword).2.2
  rw [hend] at hepoch
  have hmeet := (hnext 2635249153387078801 (by decide)).2
  exact ⟨clock, rfl, hword, hbeyond, by decide, hend, hepoch, hmeet⟩

end EpochClock

end BeaconDuties
