import BeaconDuties.Shuffle.PairWalk
import BeaconDuties.ShuffleCache.Basic
import Std.Data.HashSet

/-!
# Committee — one shuffle cut into committees

A shuffle of `size` validators is cut into `count` contiguous slices; slice `k` runs from
`size * k / count` to `size * (k + 1) / count`, so neighbours meet without gap or overlap and two
slices differ in size by at most one.

* `Committee.bounds` — the slice of a committee;
* `Committee.computeOver` — a committee from the shuffle that a lookup gives for the seed;
* `Committee.compute` — a committee from a fresh shuffle;
* `Committee.computeCached` — a committee from the shuffle that a cache serves for the seed;
* `Committee.computeAll` — every committee of a count over one cache;
* `Committee.checkPartition` — whether committees share out a list of validators.
-/

namespace BeaconDuties

namespace Committee

/-! ## Slices -/

/-- Where the slice of a committee starts and stops. -/
def bounds (size index count : Nat) : Except DutyError (Nat × Nat) :=
  if count = 0 then .error (.invalidArgument .noCommittees)
  else
    let start := size * index / count
    let stop := size * (index + 1) / count
    -- Only the end of the slice is checked, so an index past the count passes on a short list: just
    -- if `size * (index + 1 - count) < count`.
    if size < stop then .error (.committeeOutOfBounds start stop size) else .ok (start, stop)

/-- The slice of a shuffle, which need not be of the list the bounds were computed for. -/
def slice (shuffle : ShuffledList) (start stop : Nat) : Except DutyError (Array ValidatorIndex) :=
  if start ≤ stop ∧ stop ≤ shuffle.size then .ok (shuffle.extract start stop)
  else .error (.committeeOutOfBounds start stop shuffle.size)

/-- The slice of the shuffle that a lookup gave, reported. -/
def cut (index count start stop : Nat) (shuffle : Except DutyError ShuffledList) :
    Reported (Except DutyError (Array ValidatorIndex)) :=
  Reported.onSuccess (shuffle.bind fun shuffle => slice shuffle start stop) fun members =>
    .committeeCut index count members.size

/-! ## Committees -/

/-- Committee `index` of `count`, from the shuffle that a lookup gives for the seed. -/
def computeOver {σ : Type} (lookup : ShuffleLookup σ) (indices : Array ValidatorIndex) (seed : Seed)
    (index count : Nat) (rounds : UInt8) (kept : σ) :
    Reported (Except DutyError (Array ValidatorIndex) × σ) :=
  match bounds indices.size index count with
  | .error cause => pure (.error cause, kept)
  | .ok (start, stop) => do
    let (shuffle, kept) ← lookup kept seed fun kept => do
      let shuffle ← Shuffle.shuffledReported indices seed rounds
      pure (shuffle, kept)
    let members ← cut index count start stop shuffle
    pure (members, kept)

/-- Committee `index` of `count`, from a fresh shuffle of the indices. -/
def compute (indices : Array ValidatorIndex) (seed : Seed) (index count : Nat) (rounds : UInt8) :
    Reported (Except DutyError (Array ValidatorIndex)) :=
  Prod.fst <$> computeOver .uncached indices seed index count rounds ()

/-- Committee `index` of `count`, from the shuffle that a cache serves for the seed. -/
def computeCached (indices : Array ValidatorIndex) (seed : Seed) (index count : Nat)
    (rounds : UInt8) (cache : ShuffleCache) :
    Reported (Except DutyError (Array ValidatorIndex) × ShuffleCache) :=
  computeOver ShuffleCache.lookup indices seed index count rounds cache

/-- Committees `index`, `index + 1`, … of `count`, as many as asked for, over one cache; the first
failure ends the list. -/
def computeFrom (indices : Array ValidatorIndex) (seed : Seed) (count : Nat) (rounds : UInt8) :
    (remaining index : Nat) → ShuffleCache →
      Reported (Except DutyError (List (Array ValidatorIndex)) × ShuffleCache)
  | 0, _, cache => pure (.ok [], cache)
  | remaining + 1, index, cache => do
    let (first, cache) ← computeCached indices seed index count rounds cache
    match first with
    | .error cause => pure (.error cause, cache)
    | .ok members =>
      let (others, cache) ← computeFrom indices seed count rounds remaining (index + 1) cache
      pure (others.map (members :: ·), cache)

def computeAll (indices : Array ValidatorIndex) (seed : Seed) (count : Nat) (rounds : UInt8)
    (cache : ShuffleCache) :
    Reported (Except DutyError (List (Array ValidatorIndex)) × ShuffleCache) :=
  computeFrom indices seed count rounds count 0 cache

/-! ## Partitions -/

/-- Checks members in order: each is expected and was not seen before. -/
def checkMembers (expected seen : Std.HashSet ValidatorIndex) :
    List ValidatorIndex → Except DutyError Unit
  | [] => .ok ()
  | member :: rest =>
    if !expected.contains member then .error (.invalidArgument (.notListed member))
    else if seen.contains member then .error (.invalidArgument (.assignedTwice member))
    else checkMembers expected (seen.insert member) rest

/-- Whether committees share out a list of validators: they hold as many members as there are
indices, every member is one of the indices, and nobody sits twice. -/
def checkPartition (committees : List (Array ValidatorIndex)) (indices : Array ValidatorIndex) :
    Except DutyError Unit :=
  let members := committees.flatMap Array.toList
  if members.length ≠ indices.size then
    .error (.invalidArgument (.memberCount members.length indices.size))
  else checkMembers (.ofArray indices) ∅ members

end Committee

end BeaconDuties
