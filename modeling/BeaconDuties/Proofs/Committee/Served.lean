import BeaconDuties.Proofs.ShuffleCache.Recency
import BeaconDuties.Proofs.ShuffleCache.Transparency

/-!
# Served — committees are cut from whatever a cache serves

The slice of a committee is bounded by the validators that the caller names, and it is cut from the
shuffle that is served for the seed.  A cache knows a shuffle by its seed alone, so what it serves
may have been stored for other validators, fewer or more than the caller's.  Nothing is assumed
about it here: the slice is cut if it ends inside that shuffle, and is refused with the size of that
shuffle if it does not.

* `ShuffleCache.calls_lookup`, `ShuffleCache.store_lookup_of_error` — what a lookup leaves behind
  whose computation keeps away from the cache;
* `ShuffleLookup.noting` — a lookup that writes down what it is asked for;
* `Committee.served` — what is served for a committee, and the cache that is left;
* `Committee.computeCached_cuts` — one committee, over any cache.
-/

namespace BeaconDuties

/-! ## One lookup -/

namespace ShuffleCache

variable (cache : ShuffleCache) (seed : Seed) (shuffle : Reported (Except DutyError ShuffledList))

/-- A lookup is counted once, as a hit or as a miss. -/
theorem calls_lookup :
    let last := (cache.lookup seed fun cache => (·, cache) <$> shuffle).value.2
    last.hits + last.misses = cache.hits + cache.misses + 1 := by
  rw [value_lookup]
  cases cache.store.get? seed with
  | some held => exact Nat.add_right_comm ..
  | none =>
    cases shuffle.value with
    | error cause => rfl
    | ok computed => rfl

theorem lookup_of_held {held : ShuffledList} (hheld : cache.store.get? seed = some held) :
    (cache.lookup seed fun cache => (·, cache) <$> shuffle).value.1 = .ok held := by
  rw [value_lookup, hheld]

theorem lookup_of_not_held (habsent : cache.store.get? seed = none) :
    (cache.lookup seed fun cache => (·, cache) <$> shuffle).value.1 = shuffle.value := by
  rw [value_lookup, habsent]
  cases shuffle.value with
  | error cause => rfl
  | ok computed => rfl

/-- A lookup that fails leaves the entries and their order alone. -/
theorem store_lookup_of_error {cause : DutyError}
    (hfailed : (cache.lookup seed fun cache => (·, cache) <$> shuffle).value.1 = .error cause) :
    (cache.lookup seed fun cache => (·, cache) <$> shuffle).value.2.store = cache.store := by
  cases hheld : cache.store.get? seed with
  | some held =>
    rw [lookup_of_held cache seed shuffle hheld] at hfailed
    cases hfailed
  | none =>
    rw [lookup_of_not_held cache seed shuffle hheld] at hfailed
    rw [value_lookup, hheld, hfailed]
    rfl

end ShuffleCache

/-- A way that gives every lookup the same answer and notes which seeds are looked up. -/
def ShuffleLookup.noting (answer : Except DutyError ShuffledList) : ShuffleLookup (List Seed) :=
  fun noted seed _ => pure (answer, noted ++ [seed])

namespace Committee

variable {indices : Array ValidatorIndex} {index count start stop : Nat}

/-! ## Slices -/

theorem start_le_stop {size : Nat} (hbounds : bounds size index count = .ok (start, stop)) :
    start ≤ stop := by
  simp only [bounds] at hbounds
  split_ifs at hbounds
  cases hbounds
  exact edge_mono size count (Nat.le_succ index)

theorem slice_of_lt {shuffle : ShuffledList} (start : Nat) (hshort : shuffle.size < stop) :
    slice shuffle start stop = .error (.committeeOutOfBounds start stop shuffle.size) :=
  if_neg fun hinside => Nat.not_lt.2 hinside.2 hshort

/-! ## Committees -/

/-- What a cache serves for a committee of the validators, and the cache that is left. -/
def served (indices : Array ValidatorIndex) (seed : Seed) (rounds : UInt8) (cache : ShuffleCache) :
    Except DutyError ShuffledList × ShuffleCache :=
  (cache.lookup seed fun cache => (·, cache) <$> Shuffle.shuffledReported indices seed rounds).value

theorem value_computeCached_of_error {cause : DutyError} (seed : Seed) (rounds : UInt8)
    (cache : ShuffleCache) (hbounds : bounds indices.size index count = .error cause) :
    (computeCached indices seed index count rounds cache).value = (.error cause, cache) := by
  rw [computeCached, value_computeOver, hbounds]

theorem value_computeCached_of_ok (seed : Seed) (rounds : UInt8) (cache : ShuffleCache)
    (hbounds : bounds indices.size index count = .ok (start, stop)) :
    (computeCached indices seed index count rounds cache).value =
      ((served indices seed rounds cache).1.bind fun shuffle => slice shuffle start stop,
        (served indices seed rounds cache).2) := by
  rw [computeCached, value_computeOver, hbounds]
  rfl

/-- A committee over any cache, whatever that holds.  If its slice does not exist, it is refused for
that and the cache stays as it is.  Otherwise the seed is looked up once, and nothing else is, and
the cache is left as that lookup leaves it.  What is served is what is held for the seed, or else a
fresh shuffle.  The committee is the slice of a shuffle that is long enough, and a shorter one is
refused with its size.  If the shuffle fails, the committee fails in the same way, and no entry of
the cache has changed or moved. -/
theorem computeCached_cuts (indices : Array ValidatorIndex) (seed : Seed) (index count : Nat)
    (rounds : UInt8) (cache : ShuffleCache) :
    let outcome := (computeCached indices seed index count rounds cache).value
    let found := served indices seed rounds cache
    (∀ cause, bounds indices.size index count = .error cause → outcome = (.error cause, cache)) ∧
    ∀ start stop, bounds indices.size index count = .ok (start, stop) →
      (outcome.2 = found.2 ∧ found.2.hits + found.2.misses = cache.hits + cache.misses + 1 ∧
        ∀ answer noted,
          (computeOver (.noting answer) indices seed index count rounds noted).value.2 =
            noted ++ [seed]) ∧
      ((∀ held, cache.store.get? seed = some held → found.1 = .ok held) ∧
        (cache.store.get? seed = none → found.1 = Shuffle.shuffled indices seed rounds)) ∧
      (∀ shuffle, found.1 = .ok shuffle →
        (stop ≤ shuffle.size → outcome.1 = .ok (shuffle.extract start stop)) ∧
        (shuffle.size < stop →
          outcome.1 = .error (.committeeOutOfBounds start stop shuffle.size))) ∧
      ∀ cause, found.1 = .error cause →
        outcome.1 = .error cause ∧ outcome.2.store = cache.store := by
  intro outcome found
  refine ⟨fun cause => value_computeCached_of_error seed rounds cache, ?_⟩
  intro start stop hbounds
  have hparts := Prod.ext_iff.1 (value_computeCached_of_ok seed rounds cache hbounds)
  have hcut : outcome.1 = found.1.bind fun shuffle => slice shuffle start stop := hparts.1
  have hleft : outcome.2 = found.2 := hparts.2
  refine ⟨⟨hleft, ShuffleCache.calls_lookup .., ?_⟩, ⟨?_, ?_⟩, ?_, ?_⟩
  · intro answer noted
    rw [value_computeOver, hbounds]
    rfl
  · intro held hheld
    exact ShuffleCache.lookup_of_held cache seed _ hheld
  · intro habsent
    rw [← value_shuffledReported]
    exact ShuffleCache.lookup_of_not_held cache seed _ habsent
  · intro shuffle hfound
    rw [hcut, hfound]
    exact ⟨slice_of_le (start_le_stop hbounds), slice_of_lt start⟩
  · intro cause hfound
    rw [hcut, hfound, hleft]
    exact ⟨rfl, ShuffleCache.store_lookup_of_error cache seed _ hfound⟩

/-- Shuffles that were stored for other validators, one too short for the committee and one longer
than needed, no committees at all, and a list that is too long to be shuffled. -/
theorem computeCached_cuts_foreign :
    let other : Seed := Vector.replicate 32 1
    let cache := CacheStep.cacheAfter
      [.get zeroHash (.done (.ok #[5])), .get other (.done (.ok #[9, 8, 7, 6]))] (.empty 2)
    let long : Array ValidatorIndex := Array.replicate (2 ^ 40 + 1) 0
    (cache.store.get? zeroHash = some #[5] ∧ bounds 3 1 2 = .ok (1, 3) ∧
      (computeCached #[1, 2, 3] zeroHash 1 2 1 cache).value.1 =
        .error (.committeeOutOfBounds 1 3 1)) ∧
    (cache.store.get? other = some #[9, 8, 7, 6] ∧
      (computeCached #[1, 2, 3] other 1 2 1 cache).value.1 = .ok #[8, 7]) ∧
    (bounds 3 1 0 = .error (.invalidArgument .noCommittees) ∧
      (computeCached #[1, 2, 3] other 1 0 1 cache).value =
        (.error (.invalidArgument .noCommittees), cache)) ∧
    (ShuffleCache.empty 2).store.get? other = none ∧
      bounds long.size 0 1 = .ok (0, 2 ^ 40 + 1) ∧
      (computeCached long other 0 1 1 (.empty 2)).value.1 =
        .error (.invalidArgument (.listTooLong (2 ^ 40 + 1))) ∧
      (computeCached long other 0 1 1 (.empty 2)).value.2.store = (ShuffleCache.empty 2).store := by
  intro other cache long
  have hshort : cache.store.get? zeroHash = some #[5] := rfl
  have hlong : cache.store.get? other = some #[9, 8, 7, 6] := rfl
  have hbounds : bounds 3 1 2 = .ok (1, 3) := rfl
  have hnone : bounds 3 1 0 = .error (.invalidArgument .noCommittees) := rfl
  have hsize : long.size = 2 ^ 40 + 1 := Array.size_replicate
  have hwhole : bounds long.size 0 1 = .ok (0, 2 ^ 40 + 1) := by
    rw [hsize]
    rfl
  rcases (computeCached_cuts #[1, 2, 3] zeroHash 1 2 1 cache).2 1 3 hbounds with
    ⟨_, ⟨hserves, _⟩, hcuts, _⟩
  rcases (computeCached_cuts #[1, 2, 3] other 1 2 1 cache).2 1 3 hbounds with
    ⟨_, ⟨hserves', _⟩, hcuts', _⟩
  rcases (computeCached_cuts long other 0 1 1 (.empty 2)).2 0 (2 ^ 40 + 1) hwhole with
    ⟨_, ⟨_, hcomputes⟩, _, hfails⟩
  have htoolong : Shuffle.shuffled long other 1 =
      .error (.invalidArgument (.listTooLong (2 ^ 40 + 1))) := by
    have hbeyond : maxListSize < long.size := by
      rw [hsize]
      decide
    rw [Shuffle.shuffled_of_lt other 1 hbeyond, hsize]
  have hfailed := hfails _ ((hcomputes rfl).trans htoolong)
  exact ⟨⟨hshort, hbounds, (hcuts _ (hserves _ hshort)).2 (by decide)⟩,
    ⟨hlong, (hcuts' _ (hserves' _ hlong)).1 (by decide)⟩,
    ⟨hnone, (computeCached_cuts #[1, 2, 3] other 1 0 1 cache).1 _ hnone⟩, rfl, hwhole, hfailed⟩

end Committee

end BeaconDuties
