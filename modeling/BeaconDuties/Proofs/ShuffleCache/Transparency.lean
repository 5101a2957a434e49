import BeaconDuties.Proofs.Committee.Partition
import BeaconDuties.Proofs.RecencyStore.Lookup
import BeaconDuties.ShuffleCache.Session

/-!
# Transparency — a cache never changes a committee

A cache knows a shuffle by its seed alone.  As long as a seed always comes with the same validators
and the same number of rounds, whatever is held for a seed is the shuffle that the next committee of
that seed would compute, so serving it changes nothing.  Hits, evictions, clears and refused
requests may come in any order.

* `CacheStep.SeedDetermined` — histories of committees and clears in which a seed fixes what is
  shuffled;
* `ShuffleCache.Faithful` — a cache that holds nothing but shuffles such a history asks for;
* `ShuffleCache.value_computeCached` — one committee over a faithful cache;
* `CacheStep.runAll_eq_runUncached` — whole histories.
-/

namespace BeaconDuties

/-! ## Histories -/

/-- A history of committees and clears in which committees of one seed share out the same validators
after the same number of rounds. -/
structure CacheStep.SeedDetermined (steps : List CacheStep) : Prop where
  no_get : ∀ seed compute, .get seed compute ∉ steps
  same_source : ∀ {seed indices index count rounds indices' index' count' rounds'},
    .committee indices seed index count rounds ∈ steps →
    .committee indices' seed index' count' rounds' ∈ steps → indices = indices' ∧ rounds = rounds'

namespace ShuffleCache

variable {steps : List CacheStep} {cache : ShuffleCache} {seed : Seed}

/-- What is held for a seed is the shuffle that every committee of the seed is cut from. -/
def Faithful (steps : List CacheStep) (cache : ShuffleCache) : Prop :=
  ∀ {seed held}, cache.store.get? seed = some held → ∀ {indices index count rounds},
    .committee indices seed index count rounds ∈ steps →
      Shuffle.shuffled indices seed rounds = .ok held

theorem faithful_empty (steps : List CacheStep) (capacity : Nat) :
    Faithful steps (.empty capacity) := by
  intro seed held hheld
  simp [empty] at hheld

theorem faithful_clear (steps : List CacheStep) (cache : ShuffleCache) :
    Faithful steps cache.clear := by
  intro seed held hheld
  simp [clear] at hheld

/-! ## One lookup -/

/-- A lookup whose computation leaves the cache alone serves what is held, and else stores what it
computed. -/
theorem value_lookup (cache : ShuffleCache) (seed : Seed)
    (shuffle : Reported (Except DutyError ShuffledList)) :
    (cache.lookup seed fun cache => (·, cache) <$> shuffle).value =
      match cache.store.get? seed, shuffle.value with
      | some held, _ => (.ok held, cache.hit seed)
      | none, .error cause => (.error cause, cache.miss)
      | none, .ok computed => (.ok computed, cache.miss.insert seed computed) := by
  cases hheld : cache.store.get? seed with
  | some held => exact value_lookup_of_held _ hheld
  | none =>
    have habsent : cache.miss.store.get? seed = none := hheld
    cases hshuffle : shuffle.value with
    | error cause =>
      apply value_lookup_of_error hheld
      simp [hshuffle]
    | ok computed =>
      have hcompute : ((·, cache.miss) <$> shuffle).value = (.ok computed, cache.miss) := by
        simp [hshuffle]
      rw [value_lookup_of_ok hheld hcompute, value_settle_of_not_held computed habsent]

/-! ## One committee -/

/-- Over a faithful cache a committee of the history is the one that a fresh shuffle gives, and the
cache stays faithful. -/
theorem value_computeCached (hsteps : CacheStep.SeedDetermined steps)
    (hfaithful : Faithful steps cache) {indices : Array ValidatorIndex} {index count : Nat}
    {rounds : UInt8} (hstep : .committee indices seed index count rounds ∈ steps) :
    (Committee.computeCached indices seed index count rounds cache).value.1 =
        (Committee.compute indices seed index count rounds).value ∧
      Faithful steps (Committee.computeCached indices seed index count rounds cache).value.2 := by
  -- Both sides cut the same slice, so only the shuffles have to be compared.
  rw [Committee.computeCached, Committee.value_computeOver, Committee.value_compute]
  cases Committee.bounds indices.size index count with
  | error cause => exact ⟨rfl, hfaithful⟩
  | ok edges =>
    simp only [value_lookup, Committee.value_shuffledReported]
    cases hheld : cache.store.get? seed with
    | some held =>
      -- A hit serves what a fresh shuffle would give, and only changes the order.
      have hfresh : Shuffle.shuffled indices seed rounds = .ok held := hfaithful hheld hstep
      refine ⟨?_, ?_⟩
      · rw [hfresh]
        rfl
      · intro other kept hkept
        exact hfaithful (RecencyStore.get?_touch hkept)
    | none =>
      cases hshuffled : Shuffle.shuffled indices seed rounds with
      | error cause => exact ⟨rfl, hfaithful⟩
      | ok computed =>
        refine ⟨rfl, ?_⟩
        intro other kept hkept indices' index' count' rounds' hother
        -- What is held now was stored just now, for validators the seed fixes, or before.
        rcases RecencyStore.get?_insert hkept with ⟨rfl, rfl⟩ | hold
        · rcases hsteps.same_source hstep hother with ⟨rfl, rfl⟩
          exact hshuffled
        · exact hfaithful hold hother

end ShuffleCache

/-! ## Whole histories -/

namespace CacheStep

variable {steps : List CacheStep} {cache : ShuffleCache}

/-- One request of the history. -/
theorem value_run (hsteps : SeedDetermined steps) (hfaithful : cache.Faithful steps)
    {step : CacheStep} (hstep : step ∈ steps) :
    (step.run cache).value.1 = step.runUncached.value ∧
      ShuffleCache.Faithful steps (step.run cache).value.2 := by
  cases step with
  | get seed compute => exact absurd hstep (hsteps.no_get seed compute)
  | committee indices seed index count rounds =>
    rcases ShuffleCache.value_computeCached hsteps hfaithful hstep with ⟨hanswer, hkept⟩
    exact ⟨congrArg (Except.map StepResult.committee) hanswer, hkept⟩
  | clear => exact ⟨rfl, ShuffleCache.faithful_clear steps cache⟩

/-- Any part of the history, from a cache that is faithful to the whole of it. -/
theorem value_runAll (hsteps : SeedDetermined steps) (rest : List CacheStep)
    (hrest : ∀ step ∈ rest, step ∈ steps) (cache : ShuffleCache)
    (hfaithful : cache.Faithful steps) :
    (runAll rest cache).value.map Prod.fst = rest.map fun step => step.runUncached.value := by
  -- The history as a whole stays fixed, since a held shuffle serves the requests to come.
  induction rest generalizing cache with
  | nil => rfl
  | cons step rest ih =>
    rcases value_run hsteps hfaithful (hrest step (List.mem_cons_self ..)) with ⟨hanswer, hkept⟩
    have hothers := ih (fun later hlater => hrest later (List.mem_cons_of_mem step hlater)) _ hkept
    rw [runAll, List.map_cons, ← hanswer, ← hothers]
    rfl

/-- Whatever a cache has room for, each request of a history is answered as if nothing were
remembered. -/
theorem runAll_eq_runUncached (capacity : Nat) (steps : List CacheStep)
    (hsteps : SeedDetermined steps) :
    (runAll steps (.empty capacity)).value.map Prod.fst =
      steps.map fun step => step.runUncached.value :=
  value_runAll hsteps steps (fun _ hstep => hstep) _ (ShuffleCache.faithful_empty steps capacity)

/-- Two seeds that drive each other out of a cache with room for one, an index past the count, no
committees at all, and a clear. -/
theorem runAll_eq_runUncached_evicting :
    let other : Seed := Vector.replicate 32 1
    let steps : List CacheStep :=
      [.committee #[1, 2, 3] zeroHash 0 2 1, .committee #[4] other 0 1 2,
        .committee #[1, 2, 3] zeroHash 5 2 1, .committee #[1, 2, 3] zeroHash 1 2 1, .clear,
        .committee #[4] other 0 0 2]
    SeedDetermined steps ∧
      (runAll steps (.empty 0)).value.map Prod.fst =
        steps.map fun step => step.runUncached.value := by
  intro other steps
  have hother : other ≠ zeroHash := by decide
  have hsteps : SeedDetermined steps := by
    constructor
    · intro seed compute
      simp [steps]
    · intro seed indices index count rounds indices' index' count' rounds' hstep hstep'
      simp only [steps, List.mem_cons, CacheStep.committee.injEq, List.not_mem_nil, or_false,
        reduceCtorEq, false_or] at hstep hstep'
      grind
  exact ⟨hsteps, runAll_eq_runUncached 0 steps hsteps⟩

end CacheStep

end BeaconDuties
