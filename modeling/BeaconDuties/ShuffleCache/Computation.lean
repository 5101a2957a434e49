import BeaconDuties.ShuffleCache.Basic

/-!
# Computation — shuffle computations that re-enter the cache

What a lookup runs on a miss may look up other seeds first, or its own, to any depth, and go on
according to what it got. `Computation` writes such a computation down as data, so that whole
histories of a cache can be quantified over.

* `Computation` — end with an outcome, or look a seed up and continue;
* `Computation.run` — over a cache;
* `Computation.runUncached` — where every lookup computes.
-/

namespace BeaconDuties

/-- A computation of a shuffle that may look seeds up on its way. -/
inductive Computation where
  | done (outcome : Except DutyError ShuffledList)
  /-- Looks a seed up, with a computation for the case that it is not held, and continues. -/
  | lookup (seed : Seed) (compute : Computation)
      (next : Except DutyError ShuffledList → Computation)

namespace Computation

def run : Computation → ShuffleCache →
    Reported (Except DutyError ShuffledList × ShuffleCache)
  | done outcome, cache => pure (outcome, cache)
  | lookup seed compute next, cache => do
    let (outcome, cache) ← cache.lookup seed compute.run
    (next outcome).run cache

def runUncached : Computation → Except DutyError ShuffledList
  | done outcome => outcome
  | lookup _ compute next => (next compute.runUncached).runUncached

/-- Looks seeds up one after the other, each with a shuffle for the case that it is not held, and
then ends; the first failure ends it early. -/
def afterLookups (lookups : List (Seed × ShuffledList)) (outcome : Except DutyError ShuffledList) :
    Computation :=
  lookups.foldr
    (fun (seed, shuffle) rest => .lookup seed (.done (.ok shuffle)) fun
      | .ok _ => rest
      | .error cause => .done (.error cause))
    (.done outcome)

end Computation

end BeaconDuties
