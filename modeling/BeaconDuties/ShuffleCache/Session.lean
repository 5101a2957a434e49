import BeaconDuties.Committee
import BeaconDuties.ShuffleCache.Computation

/-!
# Session — histories of a shuffle cache

The life of a cache between its owner's questions: lookups with re-entrant computations,
committees, and clears.

* `CacheStep`, `StepResult` — one request to a cache, and what it answers;
* `CacheStep.run`, `CacheStep.runUncached` — one request over a cache, and without one;
* `CacheStep.runAll` — a history, with the cache as it stands after each step.
-/

namespace BeaconDuties

inductive CacheStep where
  | get (seed : Seed) (compute : Computation)
  | committee (indices : Array ValidatorIndex) (seed : Seed) (index count : Nat) (rounds : UInt8)
  | clear

/-- What a request that succeeded gives. -/
inductive StepResult where
  /-- A shuffle, and how often the request's own computation ran for it. -/
  | served (shuffle : ShuffledList) (computed : Nat)
  | committee (members : Array ValidatorIndex)
  | cleared
  deriving DecidableEq, Repr

namespace CacheStep

def run (step : CacheStep) (cache : ShuffleCache) :
    Reported (Except DutyError StepResult × ShuffleCache) :=
  match step with
  | get seed compute => do
    -- The request's own computation runs only if its seed is not held yet.
    let computed := if cache.contains seed then 0 else 1
    let (outcome, cache) ← cache.lookup seed compute.run
    pure (outcome.map (.served · computed), cache)
  | committee indices seed index count rounds => do
    let (members, cache) ← Committee.computeCached indices seed index count rounds cache
    pure (members.map .committee, cache)
  | clear => pure (.ok .cleared, cache.clear)

def runUncached (step : CacheStep) : Reported (Except DutyError StepResult) :=
  match step with
  | get _ compute => pure (compute.runUncached.map (.served · 1))
  | committee indices seed index count rounds => do
    let members ← Committee.compute indices seed index count rounds
    pure (members.map .committee)
  | clear => pure (.ok .cleared)

/-- Answers requests in order, each with the cache as it stands afterwards. -/
def runAll : List CacheStep → ShuffleCache →
    Reported (List (Except DutyError StepResult × ShuffleCache))
  | [], _ => pure []
  | step :: rest, cache => do
    let first ← step.run cache
    let others ← runAll rest first.2
    pure (first :: others)

end CacheStep

end BeaconDuties
