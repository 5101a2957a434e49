import BeaconDuties.Proofs.Committee.Partition
import BeaconDuties.Proofs.RecencyStore.Recall
import BeaconDuties.ShuffleCache.Session

/-!
# Recency — a cache holds what its latest lookups served

A computation may look seeds up in the very cache that runs it, its own seed among them, so that
between the miss and the end of a lookup anything can be stored, asked for again or forgotten.  What
a cache holds still follows from one list: the lookups that have succeeded since the last clear,
those of computations included, in the order in which they ended.

* `Occurrence`, `Moment` — the end of a lookup or a clear, with the caches before and after it;
* `Computation.moments`, `CacheStep.momentsOfAll` — the moments of a run, in the order of time;
* `Moment.history` — the successful lookups since the last clear, the latest first;
* `Moment.Follows` — moments at each of which the cache recalls its history and serves as it should;
* `CacheStep.runAll_recalls` — every history of requests, to any depth of re-entrance.
-/

namespace BeaconDuties

open RecencyStore (Recalls)

/-! ## Moments -/

/-- What can happen to a cache. -/
inductive Occurrence where
  /-- A lookup ends; its own computation gave `computed`, if it ran. -/
  | ended (seed : Seed) (computed : Option (Except DutyError ShuffledList))
      (outcome : Except DutyError ShuffledList)
  | cleared

/-- An occurrence, the cache that it finds and the cache that it leaves. -/
structure Moment where
  occurrence : Occurrence
  before : ShuffleCache
  after : ShuffleCache

/-- The successful lookups since the last clear, given those before it. -/
def Occurrence.record : Occurrence → List (Seed × ShuffledList) → List (Seed × ShuffledList)
  | ended seed _ (.ok shuffle), earlier => (seed, shuffle) :: earlier
  | ended _ _ (.error _), earlier => earlier
  | cleared, _ => []

namespace Moment

def historyFrom (earlier : List (Seed × ShuffledList)) (moments : List Moment) :
    List (Seed × ShuffledList) :=
  moments.foldl (fun earlier moment => moment.occurrence.record earlier) earlier

/-- The successful lookups since the last clear, the latest first. -/
def history (moments : List Moment) : List (Seed × ShuffledList) :=
  historyFrom [] moments

end Moment

/-- The moments of a lookup: those of its computation, if that runs, and then its own end. -/
def ShuffleCache.moments (cache : ShuffleCache) (seed : Seed)
    (compute : ShuffleCache → Reported (Except DutyError ShuffledList × ShuffleCache))
    (inner : ShuffleCache → List Moment) : List Moment :=
  let ended := (cache.lookup seed compute).value
  match cache.store.get? seed with
  | some _ => [⟨.ended seed none ended.1, cache, ended.2⟩]
  | none =>
    let computed := (compute cache.miss).value
    inner cache.miss ++ [⟨.ended seed (some computed.1) ended.1, computed.2, ended.2⟩]

def Computation.moments : Computation → ShuffleCache → List Moment
  | done _, _ => []
  | lookup seed compute next, cache =>
    let ended := (cache.lookup seed compute.run).value
    cache.moments seed compute.run compute.moments ++ (next ended.1).moments ended.2

def CacheStep.moments : CacheStep → ShuffleCache → List Moment
  | get seed compute, cache => cache.moments seed compute.run compute.moments
  | committee indices seed index count rounds, cache =>
    match Committee.bounds indices.size index count with
    | .error _ => []
    | .ok _ =>
      -- The shuffle of a committee asks for no other.
      cache.moments seed (fun cache => (·, cache) <$> Shuffle.shuffledReported indices seed rounds)
        fun _ => []
  | clear, cache => [⟨.cleared, cache, cache.clear⟩]

/-- The moments of several requests, one after the other. -/
def CacheStep.momentsOfAll : List CacheStep → ShuffleCache → List Moment
  | [], _ => []
  | step :: rest, cache => step.moments cache ++ momentsOfAll rest (step.run cache).value.2

/-! ## Following a history -/

variable {capacity : Nat} {earlier : List (Seed × ShuffledList)} {past rest : List Moment}
  {cache last : ShuffleCache} {seed : Seed}

namespace Moment

/-- A moment that finds the cache as the history before it tells, leaves it as the history with it
tells, and serves what is held by then, or else what its own computation gave. -/
structure Sound (capacity : Nat) (earlier : List (Seed × ShuffledList)) (moment : Moment) :
    Prop where
  before : Recalls capacity earlier moment.before.store
  after : Recalls capacity (moment.occurrence.record earlier) moment.after.store
  serves : ∀ {seed computed shuffle}, moment.occurrence = .ended seed computed (.ok shuffle) →
    moment.before.store.get? seed = some shuffle ∨
      moment.before.store.get? seed = none ∧ computed = some (.ok shuffle)

/-- Moments that are sound one after the other. -/
def AllSound (capacity : Nat) : List (Seed × ShuffledList) → List Moment → Prop
  | _, [] => True
  | earlier, moment :: rest =>
    moment.Sound capacity earlier ∧ AllSound capacity (moment.occurrence.record earlier) rest

/-- Moments that are sound and leave a cache as the history with them tells. -/
structure Follows (capacity : Nat) (earlier : List (Seed × ShuffledList)) (moments : List Moment)
    (last : ShuffleCache) : Prop where
  sound : AllSound capacity earlier moments
  recalls : Recalls capacity (historyFrom earlier moments) last.store

theorem historyFrom_append (earlier : List (Seed × ShuffledList)) (past rest : List Moment) :
    historyFrom earlier (past ++ rest) = historyFrom (historyFrom earlier past) rest :=
  List.foldl_append

theorem allSound_append : AllSound capacity earlier (past ++ rest) ↔
    AllSound capacity earlier past ∧ AllSound capacity (historyFrom earlier past) rest := by
  induction past generalizing earlier with
  | nil => simp [AllSound, historyFrom]
  | cons moment past ih => simp [AllSound, historyFrom, ih, and_assoc]

theorem follows_nil (hrecalls : Recalls capacity earlier cache.store) :
    Follows capacity earlier [] cache :=
  ⟨trivial, hrecalls⟩

theorem Sound.follows {moment : Moment} (hsound : moment.Sound capacity earlier) :
    Follows capacity earlier [moment] moment.after :=
  ⟨⟨hsound, trivial⟩, hsound.after⟩

theorem Follows.append (hpast : Follows capacity earlier past cache)
    (hrest : Follows capacity (historyFrom earlier past) rest last) :
    Follows capacity earlier (past ++ rest) last := by
  constructor
  · exact allSound_append.2 ⟨hpast.sound, hrest.sound⟩
  · simpa [historyFrom_append] using hrest.recalls

end Moment

open Moment

/-! ## One lookup -/

/-- The end of a lookup whose computation gave a shuffle. -/
theorem sound_settle (hrecalls : Recalls capacity earlier cache.store) (seed : Seed)
    (computed : ShuffledList) :
    Sound capacity earlier
      ⟨.ended seed (some (.ok computed)) (.ok (cache.settle seed computed).value.1), cache,
        (cache.settle seed computed).value.2⟩ := by
  cases hheld : cache.store.get? seed with
  | some held =>
    -- The computation has looked its own seed up, and what it got there is still held.
    rw [ShuffleCache.value_settle_of_held computed hheld]
    refine ⟨hrecalls, hrecalls.touch hheld, ?_⟩
    rintro _ _ _ ⟨⟩
    exact .inl hheld
  | none =>
    rw [ShuffleCache.value_settle_of_not_held computed hheld]
    refine ⟨hrecalls, hrecalls.insert seed computed, ?_⟩
    rintro _ _ _ ⟨⟩
    exact .inr ⟨hheld, rfl⟩

/-- A lookup follows the history if its computation does, from wherever that starts. -/
theorem follows_lookup {inner : ShuffleCache → List Moment}
    {compute : ShuffleCache → Reported (Except DutyError ShuffledList × ShuffleCache)}
    (hinner : ∀ {earlier cache}, Recalls capacity earlier cache.store →
      Follows capacity earlier (inner cache) (compute cache).value.2)
    (hrecalls : Recalls capacity earlier cache.store) (seed : Seed) :
    Follows capacity earlier (cache.moments seed compute inner)
      (cache.lookup seed compute).value.2 := by
  rw [ShuffleCache.moments]
  cases hheld : cache.store.get? seed with
  | some held =>
    have hlookup := ShuffleCache.value_lookup_of_held compute hheld
    simp only [hlookup]
    refine Sound.follows ⟨hrecalls, hrecalls.touch hheld, ?_⟩
    rintro _ _ _ ⟨⟩
    exact .inl hheld
  | none =>
    -- Counting the miss leaves the store alone, so the computation starts from the same history.
    have hmiss : Recalls capacity earlier cache.miss.store := hrecalls
    have hcomputed := hinner hmiss
    refine hcomputed.append ?_
    rcases hcompute : (compute cache.miss).value with ⟨outcome, middle⟩
    have hmiddle := hcomputed.recalls
    rw [hcompute] at hmiddle
    cases outcome with
    | error cause =>
      have hlookup := ShuffleCache.value_lookup_of_error hheld hcompute
      simp only [hlookup]
      refine Sound.follows ⟨hmiddle, hmiddle, ?_⟩
      rintro _ _ _ ⟨⟩
    | ok computed =>
      have hlookup := ShuffleCache.value_lookup_of_ok hheld hcompute
      simp only [hlookup]
      exact (sound_settle hmiddle seed computed).follows

/-! ## Computations and requests -/

theorem Computation.follows (computation : Computation) :
    ∀ {earlier cache}, Recalls capacity earlier cache.store →
      Follows capacity earlier (computation.moments cache) (computation.run cache).value.2 := by
  induction computation with
  | done outcome =>
    intro earlier cache hrecalls
    exact follows_nil hrecalls
  | lookup seed compute next ihcompute ihnext =>
    intro earlier cache hrecalls
    have hlookup := follows_lookup ihcompute hrecalls seed
    exact hlookup.append (ihnext _ hlookup.recalls)

namespace CacheStep

theorem follows (hrecalls : Recalls capacity earlier cache.store) (step : CacheStep) :
    Follows capacity earlier (step.moments cache) (step.run cache).value.2 := by
  cases step with
  | get seed compute => exact follows_lookup compute.follows hrecalls seed
  | committee indices seed index count rounds =>
    have hrun : ((committee indices seed index count rounds).run cache).value.2 =
        (Committee.computeCached indices seed index count rounds cache).value.2 := rfl
    rw [hrun, Committee.computeCached, Committee.value_computeOver, moments]
    cases Committee.bounds indices.size index count with
    | error cause => exact follows_nil hrecalls
    | ok edges => exact follows_lookup follows_nil hrecalls seed
  | clear =>
    have hcleared := RecencyStore.recalls_clear cache.store
    rw [hrecalls.capacity_eq] at hcleared
    refine Sound.follows ⟨hrecalls, hcleared, ?_⟩
    rintro _ _ _ ⟨⟩

theorem value_runAll_cons (step : CacheStep) (steps : List CacheStep) (cache : ShuffleCache) :
    (runAll (step :: steps) cache).value =
      (step.run cache).value :: (runAll steps (step.run cache).value.2).value := rfl

/-- The cache that several requests leave. -/
def cacheAfter (steps : List CacheStep) (cache : ShuffleCache) : ShuffleCache :=
  steps.foldl (fun cache step => (step.run cache).value.2) cache

theorem eq_cacheAfter {steps : List CacheStep} {count : Nat}
    {answer : Except DutyError StepResult}
    (hanswer : (runAll steps cache).value[count]? = some (answer, last)) :
    last = cacheAfter (steps.take (count + 1)) cache := by
  induction steps generalizing cache count with
  | nil => simp [runAll] at hanswer
  | cons step steps ih =>
    rw [value_runAll_cons] at hanswer
    cases count with
    | zero =>
      have hlast : (step.run cache).value = (answer, last) := by simpa using hanswer
      simp [cacheAfter, hlast]
    | succ count => exact ih (by simpa using hanswer)

theorem follows_all (steps : List CacheStep) (hrecalls : Recalls capacity earlier cache.store) :
    Follows capacity earlier (momentsOfAll steps cache) (cacheAfter steps cache) := by
  induction steps generalizing earlier cache with
  | nil => exact follows_nil hrecalls
  | cons step steps ih =>
    have hfirst := follows hrecalls step
    exact hfirst.append (ih hfirst.recalls)

/-- Requests follow the history as a whole, and after each of them the cache recalls the part of it
up to there. -/
theorem runAll_follows (steps : List CacheStep) (hrecalls : Recalls capacity earlier cache.store) :
    AllSound capacity earlier (momentsOfAll steps cache) ∧
      ∀ count answer later, (runAll steps cache).value[count]? = some (answer, later) →
        Recalls capacity (historyFrom earlier (momentsOfAll (steps.take (count + 1)) cache))
          later.store := by
  refine ⟨(follows_all steps hrecalls).sound, ?_⟩
  intro count answer later hanswer
  rw [eq_cacheAfter hanswer]
  exact (follows_all (steps.take (count + 1)) hrecalls).recalls

/-- Between any two lookups of a cache with room for `capacity` seeds, inside computations as well
as between requests, the seeds that it holds are the first `capacity` distinct ones of the history,
each with the shuffle that its latest lookup served.  A lookup that succeeds serves what is held for
its seed as it ends, and the shuffle of its own computation if nothing is. -/
theorem runAll_recalls (capacity : Nat) (steps : List CacheStep) :
    (∀ (past : List Moment) (moment : Moment) (rest : List Moment),
      momentsOfAll steps (.empty capacity) = past ++ moment :: rest →
      Recalls (max capacity 1) (history past) moment.before.store ∧
      Recalls (max capacity 1) (history (past ++ [moment])) moment.after.store ∧
      ∀ seed computed shuffle, moment.occurrence = .ended seed computed (.ok shuffle) →
        moment.before.store.get? seed = some shuffle ∨
          moment.before.store.get? seed = none ∧ computed = some (.ok shuffle)) ∧
    ∀ count answer cache, (runAll steps (.empty capacity)).value[count]? = some (answer, cache) →
      Recalls (max capacity 1) (history (momentsOfAll (steps.take (count + 1)) (.empty capacity)))
        cache.store := by
  have hempty : Recalls (max capacity 1) [] (ShuffleCache.empty capacity).store :=
    RecencyStore.recalls_empty capacity
  rcases runAll_follows steps hempty with ⟨hsound, hrequests⟩
  refine ⟨?_, hrequests⟩
  intro past moment rest hsplit
  rw [hsplit] at hsound
  rcases allSound_append.1 hsound with ⟨_, hmoment, _⟩
  refine ⟨hmoment.before, ?_, fun _ _ _ hended => hmoment.serves hended⟩
  have hafter : history (past ++ [moment]) = moment.occurrence.record (history past) :=
    historyFrom_append [] past [moment]
  rw [hafter]
  exact hmoment.after

/-- With room for one seed, a computation that stores its own seed and then drives it out with
another one ends where its seed is not held, so that what it gives is stored once more. -/
theorem runAll_recalls_restored :
    let other : Seed := Vector.replicate 32 1
    let computation := Computation.afterLookups [(zeroHash, #[1]), (other, #[2])] (.ok #[3])
    let steps : List CacheStep := [.get zeroHash computation]
    (∃ past moment, momentsOfAll steps (.empty 0) = past ++ [moment] ∧
      moment.occurrence = .ended zeroHash (some (.ok #[3])) (.ok #[3]) ∧
      Recalls 1 [(other, #[2]), (zeroHash, #[1])] moment.before.store ∧
      moment.before.store.get? zeroHash = none) ∧
    ∃ cache, (runAll steps (.empty 0)).value[0]? = some (.ok (.served #[3] 1), cache) ∧
      Recalls 1 [(zeroHash, #[3]), (other, #[2]), (zeroHash, #[1])] cache.store := by
  intro other computation steps
  rcases runAll_recalls 0 steps with ⟨hmoments, hrequests⟩
  refine ⟨⟨[_, _], _, rfl, rfl, ?_, rfl⟩, _, rfl, ?_⟩
  · exact (hmoments [_, _] _ [] rfl).1
  · exact hrequests 0 _ _ rfl

end CacheStep

end BeaconDuties
