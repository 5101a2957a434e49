import BeaconDuties.Event
import BeaconDuties.RecencyStore

/-!
# ShuffleCache — whole shuffles remembered by seed

Committees of one epoch are slices of the same shuffle, so a caller keeps the latest shuffles by
seed. A lookup either serves a held shuffle or runs a computation and stores what it gives. The
computation may itself look things up in the same cache; when it has stored its own seed meanwhile,
the shuffle held by then wins over the one just computed.

* `ShuffleLookup` — a way to get at the shuffle of a seed, such as `ShuffleLookup.uncached`;
* `ShuffleCache` — the store with its counts of hits and misses;
* `ShuffleCache.lookup` — serve, or compute and store;
* `ShuffleCache.stats` — what a cache tells about itself.
-/

namespace BeaconDuties

abbrev ShuffledList := Array ValidatorIndex

/-- A way to get at the shuffle of a seed: what is kept in `σ` may serve it, or else a computation
that works on the kept things itself. -/
abbrev ShuffleLookup (σ : Type) :=
  σ → Seed → (σ → Reported (Except DutyError ShuffledList × σ)) →
    Reported (Except DutyError ShuffledList × σ)

/-- The way of those who keep nothing: every lookup computes. -/
def ShuffleLookup.uncached : ShuffleLookup Unit :=
  fun kept _ compute => compute kept

/-- Shuffles by seed, with counts of the lookups that found one and of those that did not. -/
structure ShuffleCache where
  store : RecencyStore Seed ShuffledList
  hits : Nat
  misses : Nat

structure CacheStats where
  entries : Nat
  capacity : Nat
  hits : Nat
  misses : Nat
  deriving DecidableEq, Repr

namespace ShuffleCache

def defaultCapacity : Nat := 16

def empty (capacity : Nat := defaultCapacity) : ShuffleCache where
  store := .empty capacity
  hits := 0
  misses := 0

/-- Whether a seed's shuffle is held; asking leaves no trace. -/
def contains (cache : ShuffleCache) (seed : Seed) : Bool :=
  cache.store.contains seed

def clear (cache : ShuffleCache) : ShuffleCache :=
  { cache with store := cache.store.clear }

def stats (cache : ShuffleCache) : CacheStats where
  entries := cache.store.size
  capacity := cache.store.capacity
  hits := cache.hits
  misses := cache.misses

/-- A cache that has served a held seed. -/
def hit (cache : ShuffleCache) (seed : Seed) : ShuffleCache :=
  { cache with store := cache.store.touch seed, hits := cache.hits + 1 }

/-- A cache that is about to compute. -/
def miss (cache : ShuffleCache) : ShuffleCache :=
  { cache with misses := cache.misses + 1 }

def insert (cache : ShuffleCache) (seed : Seed) (shuffle : ShuffledList) : ShuffleCache :=
  { cache with store := cache.store.insert seed shuffle }

/-- A cache whose held seed was asked for again, without counting it. -/
def touch (cache : ShuffleCache) (seed : Seed) : ShuffleCache :=
  { cache with store := cache.store.touch seed }

/-- The end of a lookup whose computation gave a shuffle: one that is held by now is served in its
place, otherwise the computed one is stored. -/
def settle (cache : ShuffleCache) (seed : Seed) (computed : ShuffledList) :
    Reported (ShuffledList × ShuffleCache) :=
  match cache.store.get? seed with
  -- The computation has looked its own seed up on its way.
  | some held => ⟨(held, cache.touch seed), [.shuffleAdopted]⟩
  | none =>
    let cache := cache.insert seed computed
    ⟨(computed, cache), [.shuffleStored computed.size cache.store.size]⟩

/-- The shuffle of a seed: the held one, or else the outcome of a computation that works on the
cache itself. A computation that fails stores nothing. -/
def lookup : ShuffleLookup ShuffleCache := fun cache seed compute =>
  match cache.store.get? seed with
  | some held => pure (.ok held, cache.hit seed)
  | none => do
    -- The miss counts whatever becomes of the computation.
    let (outcome, cache) ← compute cache.miss
    match outcome with
    | .error cause => pure (.error cause, cache)
    | .ok computed =>
      let (served, cache) ← cache.settle seed computed
      pure (.ok served, cache)

/-! ## Outcomes -/

variable {cache last : ShuffleCache} {seed : Seed} {held : ShuffledList}

theorem value_settle_of_held (computed : ShuffledList)
    (hheld : cache.store.get? seed = some held) :
    (cache.settle seed computed).value = (held, cache.touch seed) := by
  rw [settle, hheld]

theorem value_settle_of_not_held (computed : ShuffledList)
    (habsent : cache.store.get? seed = none) :
    (cache.settle seed computed).value = (computed, cache.insert seed computed) := by
  rw [settle, habsent]

section Lookup

variable {compute : ShuffleCache → Reported (Except DutyError ShuffledList × ShuffleCache)}

theorem value_lookup_of_held
    (compute : ShuffleCache → Reported (Except DutyError ShuffledList × ShuffleCache))
    (hheld : cache.store.get? seed = some held) :
    (cache.lookup seed compute).value = (.ok held, cache.hit seed) := by
  simp [lookup, hheld]

variable (habsent : cache.store.get? seed = none)

include habsent

theorem value_lookup_of_error {cause : DutyError}
    (hcompute : (compute cache.miss).value = (.error cause, last)) :
    (cache.lookup seed compute).value = (.error cause, last) := by
  simp [lookup, habsent, hcompute]

theorem value_lookup_of_ok {computed : ShuffledList}
    (hcompute : (compute cache.miss).value = (.ok computed, last)) :
    (cache.lookup seed compute).value =
      (.ok (last.settle seed computed).value.1, (last.settle seed computed).value.2) := by
  simp [lookup, habsent, hcompute]

end Lookup

end ShuffleCache

end BeaconDuties
