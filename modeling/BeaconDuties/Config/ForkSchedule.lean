import BeaconDuties.Error

/-!
# ForkSchedule — when each fork activates

The first fork is active from genesis; the others each name their activation epoch, and a fork that
is not scheduled names the largest one. Activation epochs of consecutive forks do not decrease in a
valid schedule, though they may coincide.

* `ForkSchedule.forkEpoch` — the activation epoch of a fork;
* `ForkSchedule.milestoneAt` — the fork in force during an epoch;
* `ForkSchedule.validate` — whether the forks activate in order.
-/

namespace BeaconDuties

/-- The activation epochs of the forks after the first. -/
structure ForkSchedule where
  altair : Epoch
  bellatrix : Epoch
  capella : Epoch
  deneb : Epoch
  electra : Epoch
  deriving DecidableEq, Repr

namespace ForkSchedule

/-- The schedule in which every fork after the first activates in the same epoch. -/
def allAt (epoch : Epoch) : ForkSchedule :=
  ⟨epoch, epoch, epoch, epoch, epoch⟩

def unscheduled : ForkSchedule :=
  allAt farFutureEpoch

def allAtGenesis : ForkSchedule :=
  allAt 0

def forkEpoch (schedule : ForkSchedule) : Milestone → Epoch
  | .phase0 => 0
  | .altair => schedule.altair
  | .bellatrix => schedule.bellatrix
  | .capella => schedule.capella
  | .deneb => schedule.deneb
  | .electra => schedule.electra

/-- The latest fork in activation order whose epoch has come. -/
def milestoneAt (schedule : ForkSchedule) (epoch : Epoch) : Milestone :=
  -- The forks are asked latest first, so a schedule out of order still has one answer.
  (Milestone.all.reverse.find? fun milestone => schedule.forkEpoch milestone ≤ epoch).getD .phase0

/-- Whether each fork activates no earlier than the one before it. -/
def validate (schedule : ForkSchedule) : Except ConfigError Unit :=
  -- Only neighbours are compared, and the first pair out of order is named.
  match (Milestone.all.zip Milestone.all.tail).find? fun (earlier, later) =>
      schedule.forkEpoch later < schedule.forkEpoch earlier with
  | some (earlier, later) => .error (.forkOrder earlier later)
  | none => .ok ()

end ForkSchedule

end BeaconDuties
