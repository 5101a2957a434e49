import BeaconDuties.Proofs.ForkRules.Dispatch

/-!
# Unscheduled — when a fork without an activation epoch is in force

A fork that is not scheduled names the largest word as its activation epoch, and the search for the
fork in force compares that word like any other.  No epoch before the largest one reaches it, so up
to there every fork in force was scheduled.  In the largest epoch itself all forks count as
activated and the latest one is in force, whether it was scheduled or not.  Slots lead there only if
epochs have a single slot, since with two of them the last slot lies in an epoch half as large.

* `ForkSchedule.Unscheduled` — a fork without an activation epoch;
* `ForkSchedule.milestoneAt_farFutureEpoch` — the latest fork is in force in the largest epoch;
* `EpochClock.epochAt_eq_farFutureEpoch_iff` — the slots of the largest epoch;
* `unscheduled_in_force_iff` — by epoch and by slot, for all valid schedules and networks;
* `unscheduled_in_force_last` — a network without scheduled forks in its last slot.
-/

namespace BeaconDuties

theorem le_farFutureEpoch (epoch : Epoch) : epoch ≤ farFutureEpoch :=
  UInt64.le_iff_toNat_le.2 (Saturating.toNat_le epoch)

/-! ## Schedules -/

namespace ForkSchedule

variable {schedule : ForkSchedule} {epoch : Epoch}

/-- The fork names the epoch that stands for "not scheduled". -/
def Unscheduled (schedule : ForkSchedule) (fork : Milestone) : Prop :=
  schedule.forkEpoch fork = farFutureEpoch

/-- The fork in force has activated, so if it is not scheduled the largest epoch has come. -/
theorem eq_farFutureEpoch_of_unscheduled
    (hfork : schedule.Unscheduled (schedule.milestoneAt epoch)) : epoch = farFutureEpoch := by
  have hactive := (milestoneAt_spec schedule epoch).1
  rw [hfork] at hactive
  exact UInt64.le_antisymm (le_farFutureEpoch epoch) hactive

/-- In the largest epoch every fork counts as activated. -/
theorem milestoneAt_farFutureEpoch (schedule : ForkSchedule) :
    schedule.milestoneAt farFutureEpoch = .electra := by
  have hlatest := (milestoneAt_spec schedule farFutureEpoch).2 .electra (le_farFutureEpoch _)
  cases hfork : schedule.milestoneAt farFutureEpoch with
  | electra => rfl
  | _ =>
    rw [hfork] at hlatest
    exact absurd hlatest (by decide)

/-- No fork activates after the latest one, so that one is not scheduled if some fork is not. -/
theorem unscheduled_electra_iff (hvalid : schedule.validate = .ok ()) :
    schedule.Unscheduled .electra ↔ ∃ fork, schedule.Unscheduled fork := by
  refine ⟨fun helectra => ⟨.electra, helectra⟩, ?_⟩
  rintro ⟨fork, hfork⟩
  have hlater : Milestone.electra.atLeast fork = true := by cases fork <;> rfl
  have horder := forkEpoch_le_of_atLeast hvalid hlater
  rw [hfork] at horder
  exact UInt64.le_antisymm (le_farFutureEpoch _) horder

theorem unscheduled_milestoneAt_iff (hvalid : schedule.validate = .ok ()) :
    schedule.Unscheduled (schedule.milestoneAt epoch) ↔
      epoch = farFutureEpoch ∧ ∃ fork, schedule.Unscheduled fork := by
  rw [← unscheduled_electra_iff hvalid]
  constructor
  · intro hfork
    have hepoch := eq_farFutureEpoch_of_unscheduled hfork
    rw [hepoch, milestoneAt_farFutureEpoch] at hfork
    exact ⟨hepoch, hfork⟩
  · rintro ⟨rfl, helectra⟩
    rwa [milestoneAt_farFutureEpoch]

end ForkSchedule

/-! ## Slots -/

/-- Only the last slot lies in the largest epoch, and only if epochs have a single slot. -/
theorem EpochClock.epochAt_eq_farFutureEpoch_iff (clock : EpochClock) (slot : Slot) :
    clock.epochAt slot = farFutureEpoch ↔
      clock.slotsPerEpoch.toNat = 1 ∧ slot.toNat = 2 ^ 64 - 1 := by
  have hslots := clock.toNat_slotsPerEpoch_pos
  have hslot := slot.toNat_lt
  have hfirst : clock.epochAt slot = farFutureEpoch ↔
      (2 ^ 64 - 1) * clock.slotsPerEpoch.toNat ≤ slot.toNat := by
    have hreached : farFutureEpoch ≤ clock.epochAt slot ↔
        (2 ^ 64 - 1) * clock.slotsPerEpoch.toNat ≤ slot.toNat := clock.le_epochAt_iff
    rw [← hreached]
    exact ⟨fun hlast => hlast ▸ UInt64.le_refl _,
      fun hlast => UInt64.le_antisymm (le_farFutureEpoch _) hlast⟩
  rw [hfirst]
  omega

/-! ## The fork in force -/

/-- By epoch, a valid schedule has an unscheduled fork in force just if the epoch is the largest one
and some fork is not scheduled.  By slot, a valid network of that schedule does just if its epochs
have a single slot, the slot is the last one, and some fork is not scheduled. -/
theorem unscheduled_in_force_iff (schedule : ForkSchedule)
    (hvalid : schedule.validate = .ok ()) :
    (∀ epoch, schedule.Unscheduled (schedule.milestoneAt epoch) ↔
      epoch = farFutureEpoch ∧ ∃ fork, schedule.Unscheduled fork) ∧
    ∀ config : Config, config.forkSchedule = schedule → config.validate = .ok () →
      ∃ registry, (ForkRegistry.ofConfig config).value = .ok registry ∧
        ∀ slot, (schedule.Unscheduled (registry.atSlot slot).milestone ↔
          (config.slotsPerEpoch.toNat = 1 ∧ slot.toNat = 2 ^ 64 - 1) ∧
            ∃ fork, schedule.Unscheduled fork) := by
  refine ⟨fun epoch => ForkSchedule.unscheduled_milestoneAt_iff hvalid, ?_⟩
  rintro config rfl hconfig
  rcases ForkRegistry.ofConfig_eq_ok hconfig with ⟨registry, hregistry, rfl, hslots⟩
  refine ⟨registry, hregistry, ?_⟩
  intro slot
  rw [← hslots, ← registry.clock.epochAt_eq_farFutureEpoch_iff, registry.milestone_atSlot]
  exact ForkSchedule.unscheduled_milestoneAt_iff hvalid

/-- The minimal network schedules no fork and has none of them in force, in any slot, and neither in
the epoch before the largest one. -/
theorem unscheduled_in_force_iff_minimal :
    ForkSchedule.unscheduled.validate = .ok () ∧ Config.minimal.validate = .ok () ∧
      ¬ ForkSchedule.unscheduled.Unscheduled
        (ForkSchedule.unscheduled.milestoneAt 0xfffffffffffffffe) ∧
      ∃ registry, (ForkRegistry.ofConfig .minimal).value = .ok registry ∧
        ∀ slot, ¬ ForkSchedule.unscheduled.Unscheduled (registry.atSlot slot).milestone := by
  rcases unscheduled_in_force_iff .unscheduled rfl with ⟨hepochs, hconfigs⟩
  rcases hconfigs .minimal rfl rfl with ⟨registry, hregistry, hslots⟩
  refine ⟨rfl, rfl, ?_, registry, hregistry, ?_⟩
  · intro hfork
    exact absurd ((hepochs _).1 hfork).1 (by decide)
  · intro slot hfork
    exact absurd ((hslots slot).1 hfork).1.1 (by decide)

/-- A network with one slot per epoch that schedules no fork has the latest one in force in its last
slot, and its schedule has it in force in the largest epoch. -/
theorem unscheduled_in_force_last :
    let config : Config := { Config.minimal with slotsPerEpoch := 1 }
    config.validate = .ok () ∧ config.forkSchedule.validate = .ok () ∧
      config.forkSchedule.forkEpoch .electra = farFutureEpoch ∧
      config.forkSchedule.milestoneAt 0xffffffffffffffff = .electra ∧
      ∃ registry, (ForkRegistry.ofConfig config).value = .ok registry ∧
        (registry.atSlot 0xffffffffffffffff).milestone = .electra := by
  intro config
  have hvalid : config.validate = .ok () := rfl
  rcases ForkRegistry.ofConfig_eq_ok hvalid with ⟨registry, hregistry, _, hslots⟩
  refine ⟨hvalid, rfl, rfl, ForkSchedule.milestoneAt_farFutureEpoch _, registry, hregistry, ?_⟩
  have hsingle : registry.clock.slotsPerEpoch.toNat = 1 := by
    rw [hslots]
    rfl
  have hlast : registry.clock.epochAt 0xffffffffffffffff = farFutureEpoch :=
    (registry.clock.epochAt_eq_farFutureEpoch_iff _).2 ⟨hsingle, rfl⟩
  rw [registry.milestone_atSlot, hlast]
  exact ForkSchedule.milestoneAt_farFutureEpoch _

end BeaconDuties
