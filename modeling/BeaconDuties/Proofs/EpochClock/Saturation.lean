import BeaconDuties.Proofs.EpochClock.Seconds
import BeaconDuties.Proofs.EpochClock.Tiling

/-!
# Saturation — the clock cuts an exact answer off once

First and last slots, times and the epochs in which changes take effect are computed in steps, and
each step is cut off at the largest word by itself.  No operand is negative, so a step that is cut
off stays cut off, and what comes out is the exact answer, cut off once.  The first slot from which
the committees of a slot are known is not cut off at all, since it is not after that slot.

* `EpochClock.toNat_activationExitEpoch` — two sums as a single cut of the exact one;
* `EpochClock.toNat_earliestCommitteeSlotAt` — an exact product;
* `EpochClock.saturates_once` — every answer of the clock that could be too large.
-/

namespace BeaconDuties

namespace EpochClock

variable (clock : EpochClock)

/-- Cutting off the next epoch and then the one after the lookahead is cutting off the exact
epoch. -/
theorem toNat_activationExitEpoch (epoch : Epoch) :
    (clock.activationExitEpoch epoch).toNat =
      min (epoch.toNat + 1 + clock.maxSeedLookahead.toNat) Saturating.maxWord := by
  rw [activationExitEpoch, Saturating.toNat_add, Saturating.toNat_add, UInt64.toNat_one]
  omega

/-! ## The start of the epoch before -/

/-- The epoch before an epoch, and the first one for itself. -/
theorem toNat_previous (epoch : Epoch) :
    (if 0 < epoch then epoch - 1 else epoch).toNat = epoch.toNat - 1 := by
  split
  · rename_i hlater
    have hone : 1 ≤ epoch := UInt64.le_iff_toNat_le.2 (UInt64.lt_iff_toNat_lt.1 hlater)
    exact UInt64.toNat_sub_of_le _ _ hone
  · rename_i hfirst
    have hzero : ¬ 0 < epoch.toNat := fun hpos => hfirst (UInt64.lt_iff_toNat_lt.2 hpos)
    omega

/-- The first slot from which the committees of a slot are known is exact. -/
theorem toNat_earliestCommitteeSlotAt (slot : Slot) :
    (clock.earliestCommitteeSlotAt slot).toNat =
      (slot.toNat / clock.slotsPerEpoch.toNat - 1) * clock.slotsPerEpoch.toNat := by
  have hepoch : (clock.epochAt slot).toNat = slot.toNat / clock.slotsPerEpoch.toNat :=
    UInt64.toNat_div slot clock.slotsPerEpoch
  -- The epoch of the slot starts in a word, so the one before it does.
  have hfits : ((clock.epochAt slot).toNat - 1) * clock.slotsPerEpoch.toNat ≤
      Saturating.maxWord :=
    (Nat.mul_le_mul_right _ (Nat.sub_le _ 1)).trans (clock.toNat_epochAt_mul_le slot)
  rw [← toNat_previous] at hfits
  rw [earliestCommitteeSlotAt, earliestCommitteeSlot, toNat_startSlot_of_le clock hfits,
    toNat_previous, hepoch]

/-- Each answer of a clock is the exact one, cut off at the largest word just once: the first and
the last slot of an epoch, the time at which a slot starts and the epoch in which an activation or
exit takes effect.  The first slot from which the committees of a slot are known needs no cut: it is
the exact start of the epoch before that of the slot, or of the first epoch if there is none before,
and it is not after the slot. -/
theorem saturates_once (clock : EpochClock) :
    let slots := clock.slotsPerEpoch.toNat
    let seconds := clock.secondsPerSlot.toNat
    (∀ epoch, (clock.startSlot epoch).toNat = min (epoch.toNat * slots) (2 ^ 64 - 1)) ∧
    (∀ epoch, (clock.endSlot epoch).toNat =
      min (epoch.toNat * slots + slots - 1) (2 ^ 64 - 1)) ∧
    (∀ genesis slot, (clock.timeAtSlot genesis slot).toNat =
      min (genesis.toNat + slot.toNat * seconds) (2 ^ 64 - 1)) ∧
    (∀ epoch, (clock.activationExitEpoch epoch).toNat =
      min (epoch.toNat + 1 + clock.maxSeedLookahead.toNat) (2 ^ 64 - 1)) ∧
    ∀ slot,
      let epoch := slot.toNat / slots
      let previous := if epoch = 0 then 0 else epoch - 1
      let start := clock.earliestCommitteeSlotAt slot
      start.toNat = previous * slots ∧ (clock.epochAt start).toNat = previous ∧ start ≤ slot := by
  intro slots seconds
  have hslots : 0 < slots := clock.toNat_slotsPerEpoch_pos
  refine ⟨fun epoch => Saturating.toNat_mul epoch clock.slotsPerEpoch, ?_,
    clock.toNat_timeAtSlot, clock.toNat_activationExitEpoch, ?_⟩
  · intro epoch
    have hlast : epoch.toNat * slots + (slots - 1) = epoch.toNat * slots + slots - 1 := by omega
    rw [← hlast]
    exact clock.toNat_endSlot epoch
  · intro slot epoch previous start
    have hprevious : epoch - 1 = previous := by
      simp only [previous]
      split_ifs with hfirst
      · rw [hfirst]
      · rfl
    have hstart : start.toNat = previous * slots := by
      rw [← hprevious]
      exact clock.toNat_earliestCommitteeSlotAt slot
    refine ⟨hstart, ?_, ?_⟩
    · calc (clock.epochAt start).toNat = start.toNat / slots := UInt64.toNat_div _ _
        _ = previous := by rw [hstart, Nat.mul_div_cancel _ hslots]
    · rw [UInt64.le_iff_toNat_le, hstart, ← hprevious]
      calc (epoch - 1) * slots ≤ epoch * slots := Nat.mul_le_mul_right _ (Nat.sub_le _ 1)
        _ ≤ slot.toNat := Nat.div_mul_le_self _ _

end EpochClock

end BeaconDuties
