import BeaconDuties.Config.Basic
import Mathlib

/-!
# Validation — what a valid configuration promises

Validation asks its questions one after the other and stops at the first fault.  A configuration
that passes has passed all of them; in particular its clock exists.  No fault that validation finds
is a fault of a text.

* `Config.validate_eq_ok_iff` — the questions, all at once;
* `Config.clock_eq_ok` — the clock of a valid configuration;
* `Config.validate_ne_unreadable` — which refusal validation never gives.
-/

namespace BeaconDuties

theorem ForkSchedule.validate_ne_unreadable (schedule : ForkSchedule) :
    schedule.validate ≠ .error .unreadable := by
  rw [ForkSchedule.validate]
  split
  · simp
  · simp

theorem Networking.validate_ne_unreadable (networking : Networking) :
    networking.validate ≠ .error .unreadable := by
  rw [Networking.validate]
  split_ifs
  all_goals simp

namespace Config

variable {config : Config}

theorem validate_eq_ok_iff : config.validate = .ok () ↔
    (config.slotsPerEpoch ≠ 0 ∧ config.secondsPerSlot ≠ 0 ∧ config.shuffleRoundCount ≠ 0 ∧
      config.maxEffectiveBalance ≠ 0 ∧
      config.maxEffectiveBalance ≤ config.maxEffectiveBalanceElectra) ∧
    config.forkSchedule.validate = .ok () ∧ config.networking.validate = .ok () := by
  rw [validate]
  split_ifs with hslots hseconds hrounds hceiling hlowered
  · simp [hslots]
  · simp [hseconds]
  · simp [hrounds]
  · simp [hceiling]
  · simp [UInt64.not_le.2 hlowered]
  · -- What the configuration itself says is in order, and its parts decide.
    cases hschedule : config.forkSchedule.validate with
    | error cause => simp
    | ok => simp [hslots, hseconds, hrounds, hceiling, UInt64.not_lt.1 hlowered]

theorem validate_ne_unreadable (config : Config) : config.validate ≠ .error .unreadable := by
  rw [validate]
  split_ifs
  · simp
  · simp
  · simp
  · simp
  · simp
  · cases hschedule : config.forkSchedule.validate with
    | error cause =>
      have hnot := config.forkSchedule.validate_ne_unreadable
      rwa [hschedule] at hnot
    | ok => exact config.networking.validate_ne_unreadable

/-- The warning does not change what validation answers. -/
theorem value_validateReported (config : Config) :
    config.validateReported.value = config.validate := by
  rw [validateReported]
  cases config.validate with
  | error cause => rfl
  | ok => rfl

/-- A valid configuration has a clock, with its own numbers. -/
theorem clock_eq_ok (hvalid : config.validate = .ok ()) :
    ∃ clock, config.clock = .ok clock ∧ clock.slotsPerEpoch = config.slotsPerEpoch ∧
      clock.secondsPerSlot = config.secondsPerSlot ∧
      clock.maxSeedLookahead = config.maxSeedLookahead := by
  rcases validate_eq_ok_iff.1 hvalid with ⟨⟨hslots, hseconds, _⟩, _⟩
  have hslots' : 0 < config.slotsPerEpoch := UInt64.pos_iff_ne_zero.2 hslots
  have hseconds' : 0 < config.secondsPerSlot := UInt64.pos_iff_ne_zero.2 hseconds
  refine ⟨⟨config.slotsPerEpoch, config.secondsPerSlot, config.maxSeedLookahead, hslots',
    hseconds'⟩, ?_, rfl, rfl, rfl⟩
  rw [clock, EpochClock.ofParts, dif_pos hslots', dif_pos hseconds']

end Config

end BeaconDuties
