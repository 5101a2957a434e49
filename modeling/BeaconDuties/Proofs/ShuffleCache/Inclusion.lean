import BeaconDuties.Proofs.RecencyStore.Recall
import BeaconDuties.Proofs.ShuffleCache.Transparency

/-!
# Inclusion — more room never costs a hit

Two caches of different capacities are asked for the same seeds and cleared at the same times.  They
soon differ in what they hold, and with it in what a request does to them, but both recall the same
history of seeds, since a hit and a miss are uses alike.  The one with less room holds the first
distinct seeds of that history, and the one with more room holds some further ones.  So a request
that the smaller cache serves, the larger one serves as well.

* `RecencyStore.Recalls.contains_of_le` — what less room holds of a history, more room holds;
* `CacheStep.Alike` — requests that make the same use of two caches;
* `ShuffleCache.Includes` — a cache that holds all that another one holds, and has done no worse;
* `CacheStep.runAll_includes` — every pair of capacities, after every request.
-/

namespace BeaconDuties

open RecencyStore (Recalls)

/-! ## Two rooms for one history -/

namespace RecencyStore

variable {κ υ : Type} [DecidableEq κ] {small large : RecencyStore κ υ}
  {history other : List (κ × υ)} {capacity room : Nat} {key : κ}

theorem contains_iff {store : RecencyStore κ υ} : store.contains key = true ↔ key ∈ store.keys := by
  rw [contains, Option.isSome_iff_exists, mem_keys_iff]

/-- The values may differ, as keys are held whatever comes with them. -/
theorem Recalls.contains_of_le (hsmall : Recalls capacity history small)
    (hlarge : Recalls room other large) (hsame : history.map Prod.fst = other.map Prod.fst)
    (hle : capacity ≤ room) (hheld : small.contains key = true) : large.contains key = true := by
  rw [contains_iff, hsmall.keys_eq, hsame] at hheld
  rw [contains_iff, hlarge.keys_eq]
  exact (List.take_prefix_take_left hle).subset hheld

end RecencyStore

/-! ## One request -/

/-- Requests for one seed, by computations that succeed and ask for nothing themselves, or two
clears. -/
inductive CacheStep.Alike : CacheStep → CacheStep → Prop
  | get (seed : Seed) (shuffle other : ShuffledList) :
      Alike (.get seed (.done (.ok shuffle))) (.get seed (.done (.ok other)))
  | clear : Alike .clear .clear

/-- A cache that holds all the seeds that a smaller one holds, with no fewer hits and no more
misses. -/
structure ShuffleCache.Includes (large small : ShuffleCache) : Prop where
  contains : ∀ seed, small.contains seed = true → large.contains seed = true
  hits_le : small.hits ≤ large.hits
  misses_le : large.misses ≤ small.misses

namespace CacheStep

variable {cache small large : ShuffleCache} {capacity room : Nat}
  {history : List (Seed × ShuffledList)}

/-- A request for a seed, with a computation that asks for nothing, is a use of the seed, and is
counted by whether the seed was held. -/
theorem recalls_get (hrecalls : Recalls capacity history cache.store) (seed : Seed)
    (shuffle : ShuffledList) :
    let last := ((get seed (.done (.ok shuffle))).run cache).value.2
    ∃ served, Recalls capacity ((seed, served) :: history) last.store ∧
      last.hits = cache.hits + (if cache.contains seed then 1 else 0) ∧
      last.hits + last.misses = cache.hits + cache.misses + 1 := by
  intro last
  have hlast : last = (cache.lookup seed fun cache => (·, cache) <$> pure (.ok shuffle)).value.2 :=
    rfl
  rw [ShuffleCache.value_lookup] at hlast
  cases hheld : cache.store.get? seed with
  | some held =>
    have hcontains : cache.contains seed = true := by
      simp [ShuffleCache.contains, RecencyStore.contains, hheld]
    have hhit : last = cache.hit seed := by simpa [hheld] using hlast
    rw [hhit]
    refine ⟨held, hrecalls.touch hheld, ?_, ?_⟩
    · simp [ShuffleCache.hit, hcontains]
    · exact Nat.add_right_comm ..
  | none =>
    have hcontains : cache.contains seed = false := by
      simp [ShuffleCache.contains, RecencyStore.contains, hheld]
    have hmiss : last = cache.miss.insert seed shuffle := by simpa [hheld] using hlast
    rw [hmiss]
    refine ⟨shuffle, hrecalls.insert seed shuffle, ?_, rfl⟩
    simp [ShuffleCache.insert, ShuffleCache.miss, hcontains]

/-- Two caches that recall one history of seeds, as far as each has room, where the one with less
room has not done better. -/
def CommonPast (capacity room : Nat) (small large : ShuffleCache) : Prop :=
  ∃ history other : List (Seed × ShuffledList), history.map Prod.fst = other.map Prod.fst ∧
    Recalls capacity history small.store ∧ Recalls room other large.store ∧
    small.hits ≤ large.hits ∧ large.misses ≤ small.misses

theorem CommonPast.includes (hpast : CommonPast capacity room small large) (hle : capacity ≤ room) :
    large.Includes small := by
  rcases hpast with ⟨history, other, hsame, hsmall, hlarge, hhits, hmisses⟩
  exact ⟨fun _ => hsmall.contains_of_le hlarge hsame hle, hhits, hmisses⟩

theorem CommonPast.run {step other : CacheStep} (hpast : CommonPast capacity room small large)
    (hle : capacity ≤ room) (halike : Alike step other) :
    CommonPast capacity room (step.run small).value.2 (other.run large).value.2 := by
  have hincludes := hpast.includes hle
  rcases hpast with ⟨history, history', hsame, hsmall, hlarge, hhits, hmisses⟩
  cases halike with
  | get seed shuffle other =>
    rcases recalls_get hsmall seed shuffle with ⟨served, hsmall', hhit, hcount⟩
    rcases recalls_get hlarge seed other with ⟨served', hlarge', hhit', hcount'⟩
    -- A hit of the smaller cache is one of the larger cache.
    have hbetter : (if small.contains seed then 1 else 0) ≤
        (if large.contains seed then 1 else 0) := by
      by_cases hheld : small.contains seed = true
      · rw [if_pos hheld, if_pos (hincludes.contains seed hheld)]
      · rw [if_neg hheld]
        exact Nat.zero_le _
    exact ⟨_, _, by simp [hsame], hsmall', hlarge', by omega, by omega⟩
  | clear =>
    have hsmall' := RecencyStore.recalls_clear small.store
    have hlarge' := RecencyStore.recalls_clear large.store
    rw [hsmall.capacity_eq] at hsmall'
    rw [hlarge.capacity_eq] at hlarge'
    exact ⟨[], [], rfl, hsmall', hlarge', hhits, hmisses⟩

/-! ## Histories of requests -/

theorem runAll_includes_from {steps others : List CacheStep}
    (hpast : CommonPast capacity room small large) (hle : capacity ≤ room)
    (halike : List.Forall₂ Alike steps others) :
    List.Forall₂ (fun first second => second.2.Includes first.2) (runAll steps small).value
      (runAll others large).value := by
  induction halike generalizing small large with
  | nil => exact .nil
  | cons hfirst _ ih =>
    have hlater := hpast.run hle hfirst
    exact .cons (hlater.includes hle) (ih hlater)

/-- After every request, a cache with more room holds all that a cache with less room holds, has
had at least as many hits and at most as many misses, if both have been asked for the same seeds by
computations that succeed and ask for nothing, and have been cleared at the same times. -/
theorem runAll_includes (capacity room : Nat) (steps others : List CacheStep)
    (hle : capacity ≤ room) (halike : List.Forall₂ Alike steps others) :
    List.Forall₂ (fun small large => large.2.Includes small.2)
      (runAll steps (.empty capacity)).value (runAll others (.empty room)).value := by
  have hempty : CommonPast (max capacity 1) (max room 1) (.empty capacity) (.empty room) :=
    ⟨[], [], rfl, RecencyStore.recalls_empty capacity, RecencyStore.recalls_empty room,
      Nat.le_refl 0, Nat.le_refl 0⟩
  exact runAll_includes_from hempty (by omega) halike

/-- Two seeds that drive each other out of the smaller cache alone, and a clear of both. -/
theorem runAll_includes_evicting :
    let other : Seed := Vector.replicate 32 1
    let first : CacheStep := .get zeroHash (.done (.ok #[1]))
    let second : CacheStep := .get other (.done (.ok #[2]))
    let steps : List CacheStep := [first, second, first, .clear, second]
    (1 ≤ 2 ∧ List.Forall₂ Alike steps steps) ∧
      List.Forall₂ (fun small large => large.2.Includes small.2)
        (runAll steps (.empty 1)).value (runAll steps (.empty 2)).value ∧
      ((runAll steps (.empty 1)).value.map fun answer => answer.2.hits) = [0, 0, 0, 0, 0] ∧
      ((runAll steps (.empty 2)).value.map fun answer => answer.2.hits) = [0, 0, 1, 1, 1] := by
  intro other first second steps
  have halike : List.Forall₂ Alike steps steps :=
    .cons (.get ..) (.cons (.get ..) (.cons (.get ..) (.cons .clear (.cons (.get ..) .nil))))
  exact ⟨⟨by decide, halike⟩, runAll_includes 1 2 steps steps (by decide) halike, by cbv, by cbv⟩

end CacheStep

end BeaconDuties
