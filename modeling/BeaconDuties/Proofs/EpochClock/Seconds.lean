import BeaconDuties.EpochClock
import Mathlib

/-!
# Seconds — slots and times are adjoint

The time at which a slot starts is cut off at the largest word, first as a duration and then as a
moment, which is one cut of the exact moment.  From genesis on, the slot of a time is the last one
that has started by then, so asking whether a slot has come is asking whether the time has reached
its exact start.

* `EpochClock.toNat_timeAtSlot`, `EpochClock.toNat_slotAtTime` — both conversions in exact numbers;
* `EpochClock.le_slotAtTime_iff` — which slots have come at a time;
* `EpochClock.times_adjoin_slots` — the way from slots to times and back, and from times to slots
  and back.
-/

namespace BeaconDuties

namespace EpochClock

variable (clock : EpochClock) {genesis time later : UInt64} {slot next : Slot}

/-! ## Both conversions in exact numbers -/

/-- Cutting off the duration and then the moment is cutting off the exact moment. -/
theorem toNat_timeAtSlot (genesis : UInt64) (slot : Slot) :
    (clock.timeAtSlot genesis slot).toNat =
      min (genesis.toNat + slot.toNat * clock.secondsPerSlot.toNat) Saturating.maxWord := by
  have hslot : (Saturating.sub slot genesisSlot).toNat = slot.toNat :=
    Saturating.toNat_sub slot genesisSlot
  rw [timeAtSlot, Saturating.toNat_add, Saturating.toNat_mul, hslot]
  omega

theorem toNat_slotAtTime (genesis time : UInt64) :
    (clock.slotAtTime genesis time).toNat =
      (time.toNat - genesis.toNat) / clock.secondsPerSlot.toNat := by
  rw [slotAtTime, UInt64.toNat_div, Saturating.toNat_sub]

/-! ## From slots to times and back -/

/-- From genesis on, a slot has come just if its exact start has. -/
theorem le_slotAtTime_iff (hgenesis : genesis ≤ time) :
    slot ≤ clock.slotAtTime genesis time ↔
      genesis.toNat + slot.toNat * clock.secondsPerSlot.toNat ≤ time.toNat := by
  have hafter : genesis.toNat ≤ time.toNat := UInt64.le_iff_toNat_le.1 hgenesis
  rw [UInt64.le_iff_toNat_le, toNat_slotAtTime,
    Nat.le_div_iff_mul_le clock.toNat_secondsPerSlot_pos, Nat.le_sub_iff_add_le' hafter]

theorem timeAtSlot_le_iff (hgenesis : genesis ≤ time)
    (hstart : genesis.toNat + slot.toNat * clock.secondsPerSlot.toNat ≤ Saturating.maxWord) :
    clock.timeAtSlot genesis slot ≤ time ↔ slot ≤ clock.slotAtTime genesis time := by
  rw [clock.le_slotAtTime_iff hgenesis, UInt64.le_iff_toNat_le, toNat_timeAtSlot,
    Nat.min_eq_left hstart]

/-- A slot is the one at its own start. -/
theorem slotAtTime_timeAtSlot
    (hstart : genesis.toNat + slot.toNat * clock.secondsPerSlot.toNat ≤ Saturating.maxWord) :
    clock.slotAtTime genesis (clock.timeAtSlot genesis slot) = slot := by
  apply UInt64.toNat_inj.1
  rw [toNat_slotAtTime, toNat_timeAtSlot, Nat.min_eq_left hstart, Nat.add_sub_cancel_left,
    Nat.mul_div_cancel _ clock.toNat_secondsPerSlot_pos]

/-! ## From times to slots and back -/

/-- From genesis on, the slot of a time starts in a word, no later than that time. -/
theorem start_slotAtTime_le (hgenesis : genesis ≤ time) :
    genesis.toNat + (clock.slotAtTime genesis time).toNat * clock.secondsPerSlot.toNat ≤
      time.toNat :=
  (clock.le_slotAtTime_iff hgenesis).1 (UInt64.le_refl _)

theorem lt_start_slotAtTime_add (genesis time : UInt64) :
    time.toNat < genesis.toNat +
      (clock.slotAtTime genesis time).toNat * clock.secondsPerSlot.toNat +
      clock.secondsPerSlot.toNat := by
  have hnext := Nat.lt_div_mul_add (a := time.toNat - genesis.toNat)
    clock.toNat_secondsPerSlot_pos
  rw [toNat_slotAtTime]
  omega

/-! ## Monotony -/

theorem timeAtSlot_mono (genesis : UInt64) (hslot : slot ≤ next) :
    clock.timeAtSlot genesis slot ≤ clock.timeAtSlot genesis next := by
  have hduration := Nat.mul_le_mul_right clock.secondsPerSlot.toNat (UInt64.le_iff_toNat_le.1 hslot)
  rw [UInt64.le_iff_toNat_le, toNat_timeAtSlot, toNat_timeAtSlot]
  omega

theorem slotAtTime_mono (genesis : UInt64) (htime : time ≤ later) :
    clock.slotAtTime genesis time ≤ clock.slotAtTime genesis later := by
  rw [UInt64.le_iff_toNat_le, toNat_slotAtTime, toNat_slotAtTime]
  exact Nat.div_le_div_right (Nat.sub_le_sub_right (UInt64.le_iff_toNat_le.1 htime) genesis.toNat)

/-- A slot whose exact start is a word is the one at its start, and has started by a time from
genesis on just if it is not after the slot of that time.  The slot of such a time starts exactly
where the clock says, not after the time, and less than a slot before it.  Both conversions keep the
order of all words. -/
theorem times_adjoin_slots (clock : EpochClock) (genesis : UInt64) :
    let seconds := clock.secondsPerSlot.toNat
    (∀ slot : Slot, genesis.toNat + slot.toNat * seconds < 2 ^ 64 →
      clock.slotAtTime genesis (clock.timeAtSlot genesis slot) = slot ∧
      ∀ time, genesis ≤ time →
        (clock.timeAtSlot genesis slot ≤ time ↔ slot ≤ clock.slotAtTime genesis time)) ∧
    (∀ time, genesis ≤ time →
      let slot := clock.slotAtTime genesis time
      let start := clock.timeAtSlot genesis slot
      start.toNat = genesis.toNat + slot.toNat * seconds ∧ start ≤ time ∧
        time.toNat < start.toNat + seconds) ∧
    (∀ slot next, slot ≤ next → clock.timeAtSlot genesis slot ≤ clock.timeAtSlot genesis next) ∧
    ∀ time later, time ≤ later →
      clock.slotAtTime genesis time ≤ clock.slotAtTime genesis later := by
  intro seconds
  refine ⟨?_, ?_, fun _ _ => clock.timeAtSlot_mono genesis,
    fun _ _ => clock.slotAtTime_mono genesis⟩
  · intro slot hword
    have hstart : genesis.toNat + slot.toNat * seconds ≤ Saturating.maxWord :=
      Nat.le_sub_one_of_lt hword
    exact ⟨clock.slotAtTime_timeAtSlot hstart, fun time hgenesis =>
      clock.timeAtSlot_le_iff hgenesis hstart⟩
  · intro time hgenesis slot start
    have hcome : genesis.toNat + slot.toNat * seconds ≤ time.toNat :=
      clock.start_slotAtTime_le hgenesis
    have hnext : time.toNat < genesis.toNat + slot.toNat * seconds + seconds :=
      clock.lt_start_slotAtTime_add genesis time
    -- The exact start is not after a word, so it is not cut off.
    have hstart : start.toNat = genesis.toNat + slot.toNat * seconds := by
      have hword := hcome.trans (Saturating.toNat_le time)
      exact (clock.toNat_timeAtSlot genesis slot).trans (Nat.min_eq_left hword)
    refine ⟨hstart, ?_, ?_⟩
    · rwa [UInt64.le_iff_toNat_le, hstart]
    · rwa [hstart]

/-- A genesis 100 seconds before the words end: the slot of the last second is the ninth, which
starts three seconds earlier. -/
theorem times_adjoin_slots_last :
    ∃ clock : EpochClock, EpochClock.ofParts 32 12 4 = .ok clock ∧
      (18446744073709551516 : UInt64).toNat + (8 : Slot).toNat * clock.secondsPerSlot.toNat <
        2 ^ 64 ∧
      (18446744073709551516 : UInt64) ≤ 18446744073709551615 ∧ (8 : Slot) ≤ 9 ∧
      clock.slotAtTime 18446744073709551516 18446744073709551615 = 8 ∧
      clock.timeAtSlot 18446744073709551516 8 = 18446744073709551612 ∧
      clock.slotAtTime 18446744073709551516 18446744073709551612 = 8 ∧
      clock.timeAtSlot 18446744073709551516 8 ≤ clock.timeAtSlot 18446744073709551516 9 := by
  let clock : EpochClock := ⟨32, 12, 4, by decide, by decide⟩
  rcases times_adjoin_slots clock 18446744073709551516 with ⟨hslots, htimes, hmono, _⟩
  have hlast : (18446744073709551516 : UInt64) ≤ 18446744073709551615 := by decide
  have hword : (18446744073709551516 : UInt64).toNat +
      (8 : Slot).toNat * clock.secondsPerSlot.toNat < 2 ^ 64 := by decide
  have hslot : clock.slotAtTime 18446744073709551516 18446744073709551615 = 8 := by decide
  have hstart := (htimes 18446744073709551615 hlast).1
  rw [hslot] at hstart
  have htime : clock.timeAtSlot 18446744073709551516 8 = 18446744073709551612 :=
    UInt64.toNat_inj.1 hstart
  have hback := (hslots 8 hword).1
  rw [htime] at hback
  exact ⟨clock, rfl, hword, hlast, by decide, hslot, htime, hback, hmono 8 9 (by decide)⟩

end EpochClock

end BeaconDuties
