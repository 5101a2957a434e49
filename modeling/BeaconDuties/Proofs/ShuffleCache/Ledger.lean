import BeaconDuties.Proofs.ShuffleCache.Recency

/-!
# Ledger — the counts of a cache tell what it went through

A cache counts a lookup when it is made and changes its store when the computation ends.  In between
the computation may make lookups of its own, fail, or find that its seed has been stored meanwhile.
Whatever happens is posted to a ledger, together with the cache that it leaves, so that there is an
entry for each point of a run at which something has changed.  The books balance at every one of
them: the computations that have started are those that have ended, each in one of three ways, and
those that are still running, and between two requests none is.

* `Posting`, `Entry` — what is posted, and the cache that it leaves;
* `Computation.ledger`, `CacheStep.ledgerOfAll` — the ledger of a run, in the order of time;
* `ShuffleCache.Balances` — a cache whose counts are those of a ledger;
* `Reports` — events that report the stores and adoptions of a ledger, and no other ones;
* `CacheStep.runAll_balances` — every history of requests, to any depth of re-entrance.
-/

namespace BeaconDuties

/-! ## Ledgers -/

inductive Posting where
  /-- A lookup is made, and its seed is held. -/
  | hit
  /-- A lookup is made, its seed is not held, and its computation starts to run. -/
  | miss
  /-- The computation of a lookup has failed. -/
  | failed
  /-- The shuffle of a computation is stored, after which the store holds `entries`. -/
  | stored (size entries : Nat)
  /-- A shuffle that is held by now is taken for that of a computation. -/
  | adopted
  | cleared
  deriving DecidableEq

namespace Posting

/-- How a posting is reported, if it is. -/
def event? : Posting → Option Event
  | stored size entries => some (.shuffleStored size entries)
  | adopted => some .shuffleAdopted
  | _ => none

def isStored : Posting → Bool
  | stored .. => true
  | _ => false

section Counts

variable (made : List Posting)

/-- The lookups that have been made, those of computations included. -/
def calls : Nat := made.count hit + made.count miss

/-- The computations that have started to run. -/
def runs : Nat := made.count miss

def failures : Nat := made.count failed

def stores : Nat := made.countP isStored

def adoptions : Nat := made.count adopted

end Counts

end Posting

/-- A posting and the cache that it leaves. -/
structure Entry where
  posting : Posting
  cache : ShuffleCache

def postings (ledger : List Entry) : List Posting :=
  ledger.map Entry.posting

namespace ShuffleCache

/-- What becomes of a lookup whose computation has ended, given the cache that it finds then. -/
def closing (cache : ShuffleCache) (seed : Seed) : Except DutyError ShuffledList → Posting
  | .error _ => .failed
  | .ok computed =>
    match cache.store.get? seed with
    | some _ => .adopted
    | none => .stored computed.size (cache.insert seed computed).store.size

/-- The ledger of a lookup: its hit, or else its miss, what its computation posts, and its end. -/
def ledger (cache : ShuffleCache) (seed : Seed)
    (compute : ShuffleCache → Reported (Except DutyError ShuffledList × ShuffleCache))
    (inner : ShuffleCache → List Entry) : List Entry :=
  let last := (cache.lookup seed compute).value.2
  match cache.store.get? seed with
  | some _ => [⟨.hit, last⟩]
  | none =>
    let computed := (compute cache.miss).value
    ⟨.miss, cache.miss⟩ :: inner cache.miss ++ [⟨computed.2.closing seed computed.1, last⟩]

end ShuffleCache

def Computation.ledger : Computation → ShuffleCache → List Entry
  | done _, _ => []
  | lookup seed compute next, cache =>
    let ended := (cache.lookup seed compute.run).value
    cache.ledger seed compute.run compute.ledger ++ (next ended.1).ledger ended.2

def CacheStep.ledger : CacheStep → ShuffleCache → List Entry
  | get seed compute, cache => cache.ledger seed compute.run compute.ledger
  | committee indices seed index count rounds, cache =>
    match Committee.bounds indices.size index count with
    | .error _ => []
    | .ok _ =>
      -- The shuffle of a committee makes no lookups.
      cache.ledger seed (fun cache => (·, cache) <$> Shuffle.shuffledReported indices seed rounds)
        fun _ => []
  | clear, cache => [⟨.cleared, cache.clear⟩]

/-- The ledger of several requests, one after the other. -/
def CacheStep.ledgerOfAll : List CacheStep → ShuffleCache → List Entry
  | [], _ => []
  | step :: rest, cache => step.ledger cache ++ ledgerOfAll rest (step.run cache).value.2

/-! ## Balances -/

variable {capacity running : Nat} {earlier made : List Posting} {past rest : List Entry}
  {cache last : ShuffleCache} {seed : Seed} {posting : Posting}

open Posting

namespace ShuffleCache

/-- A cache with room for `capacity` seeds whose counts are those of what was posted, while so many
computations are `running`. -/
structure Balances (capacity running : Nat) (made : List Posting) (cache : ShuffleCache) :
    Prop where
  calls_eq : cache.stats.hits + cache.stats.misses = calls made
  runs_eq : cache.stats.misses = runs made
  ends_eq : cache.stats.misses = failures made + stores made + adoptions made + running
  capacity_eq : cache.stats.capacity = capacity
  entries_le_capacity : cache.stats.entries ≤ capacity
  entries_le_stores : cache.stats.entries ≤ stores made

theorem balances_empty (capacity : Nat) : Balances (max capacity 1) 0 [] (empty capacity) where
  calls_eq := rfl
  runs_eq := rfl
  ends_eq := rfl
  capacity_eq := rfl
  entries_le_capacity := Nat.zero_le _
  entries_le_stores := Nat.zero_le _

/-- One posting keeps the balance if it is counted once, adds no more entries than it stores, and
ends or starts the computations that it is about. -/
theorem Balances.post (hbalances : cache.Balances capacity running made) {still : Nat}
    (hcalls : last.hits + last.misses = cache.hits + cache.misses + calls [posting])
    (hmisses : last.misses = cache.misses + runs [posting])
    (hcapacity : last.store.capacity = cache.store.capacity)
    (hsize : last.store.size ≤ cache.store.size + stores [posting])
    (hrunning : running + runs [posting] =
      still + failures [posting] + stores [posting] + adoptions [posting]) :
    last.Balances capacity still (made ++ [posting]) := by
  rcases hbalances with ⟨hcalls', hruns', hends', hcapacity', _, hentries'⟩
  have hsame : last.store.capacity = capacity := hcapacity.trans hcapacity'
  have hroom : last.store.size ≤ capacity := by
    rw [← hsame]
    exact last.store.length_le
  simp only [stats, calls, runs, failures, stores, adoptions] at hcalls' hruns' hends' hentries'
  simp only [calls, runs, failures, stores, adoptions] at hcalls hmisses hsize hrunning
  refine ⟨?_, ?_, ?_, hsame, hroom, ?_⟩
  · simp only [stats, calls, List.count_append]
    omega
  · simp only [stats, runs, List.count_append]
    omega
  · simp only [stats, failures, stores, adoptions, List.count_append, List.countP_append]
    omega
  · simp only [stats, stores, List.countP_append]
    omega

theorem Balances.hit (hbalances : cache.Balances capacity running made) (seed : Seed) :
    (cache.hit seed).Balances capacity running (made ++ [.hit]) :=
  hbalances.post (Nat.add_right_comm ..) rfl (RecencyStore.capacity_touch ..)
    (RecencyStore.size_touch_le ..) rfl

theorem Balances.miss (hbalances : cache.Balances capacity running made) :
    cache.miss.Balances capacity (running + 1) (made ++ [.miss]) :=
  hbalances.post rfl rfl rfl (Nat.le_refl _) rfl

theorem Balances.fail (hbalances : cache.Balances capacity (running + 1) made) :
    cache.Balances capacity running (made ++ [.failed]) :=
  hbalances.post rfl rfl rfl (Nat.le_refl _) rfl

/-- A computation that gave a shuffle stores it or adopts the one that is held by now. -/
theorem Balances.settle (hbalances : cache.Balances capacity (running + 1) made) (seed : Seed)
    (computed : ShuffledList) :
    (cache.settle seed computed).value.2.Balances capacity running
      (made ++ [cache.closing seed (.ok computed)]) := by
  rw [closing]
  cases hheld : cache.store.get? seed with
  | some held =>
    rw [value_settle_of_held computed hheld]
    exact hbalances.post rfl rfl (RecencyStore.capacity_touch ..) (RecencyStore.size_touch_le ..)
      rfl
  | none =>
    rw [value_settle_of_not_held computed hheld]
    exact hbalances.post rfl rfl rfl (RecencyStore.size_insert_le ..) rfl

theorem Balances.clear (hbalances : cache.Balances capacity running made) :
    cache.clear.Balances capacity running (made ++ [.cleared]) :=
  hbalances.post rfl rfl rfl (Nat.zero_le _) rfl

end ShuffleCache

/-- Entries each of which leaves a cache in balance with what has been posted up to it. -/
def AllBalanced (capacity : Nat) : List Posting → List Entry → Prop
  | _, [] => True
  | earlier, entry :: rest =>
    (∃ running, entry.cache.Balances capacity running (earlier ++ [entry.posting])) ∧
      AllBalanced capacity (earlier ++ [entry.posting]) rest

/-- A ledger with all entries in balance, and the cache in balance with it that is left. -/
structure Closes (capacity running : Nat) (earlier : List Posting) (ledger : List Entry)
    (last : ShuffleCache) : Prop where
  entries : AllBalanced capacity earlier ledger
  last : last.Balances capacity running (earlier ++ postings ledger)

theorem postings_append (past rest : List Entry) :
    postings (past ++ rest) = postings past ++ postings rest :=
  List.map_append

theorem allBalanced_append : AllBalanced capacity earlier (past ++ rest) ↔
    AllBalanced capacity earlier past ∧ AllBalanced capacity (earlier ++ postings past) rest := by
  induction past generalizing earlier with
  | nil => simp [AllBalanced, postings]
  | cons entry past ih => simp [AllBalanced, postings, ih, and_assoc]

theorem closes_nil (hbalances : cache.Balances capacity running earlier) :
    Closes capacity running earlier [] cache :=
  ⟨trivial, by simpa [postings] using hbalances⟩

theorem closes_single (hbalances : cache.Balances capacity running (earlier ++ [posting])) :
    Closes capacity running earlier [⟨posting, cache⟩] cache :=
  ⟨⟨⟨running, hbalances⟩, trivial⟩, hbalances⟩

theorem Closes.append {still : Nat} (hpast : Closes capacity running earlier past cache)
    (hrest : Closes capacity still (earlier ++ postings past) rest last) :
    Closes capacity still earlier (past ++ rest) last := by
  constructor
  · exact allBalanced_append.2 ⟨hpast.entries, hrest.entries⟩
  · simpa [postings_append] using hrest.last

/-! ## Runs -/

/-- The books of a lookup balance if those of its computation do, from wherever that starts and
however many computations are running then. -/
theorem closes_lookup {inner : ShuffleCache → List Entry}
    {compute : ShuffleCache → Reported (Except DutyError ShuffledList × ShuffleCache)}
    (hinner : ∀ {running earlier cache}, cache.Balances capacity running earlier →
      Closes capacity running earlier (inner cache) (compute cache).value.2)
    (hbalances : cache.Balances capacity running earlier) (seed : Seed) :
    Closes capacity running earlier (cache.ledger seed compute inner)
      (cache.lookup seed compute).value.2 := by
  rw [ShuffleCache.ledger]
  cases hheld : cache.store.get? seed with
  | some held =>
    have hlookup := ShuffleCache.value_lookup_of_held compute hheld
    simp only [hlookup]
    exact closes_single (hbalances.hit seed)
  | none =>
    have hmiss := hbalances.miss
    have hcomputed := (closes_single hmiss).append (hinner hmiss)
    refine hcomputed.append ?_
    rcases hcompute : (compute cache.miss).value with ⟨outcome, middle⟩
    have hmiddle := hcomputed.last
    rw [hcompute] at hmiddle
    cases outcome with
    | error cause =>
      have hlookup := ShuffleCache.value_lookup_of_error hheld hcompute
      simp only [hlookup]
      exact closes_single hmiddle.fail
    | ok computed =>
      have hlookup := ShuffleCache.value_lookup_of_ok hheld hcompute
      simp only [hlookup]
      exact closes_single (hmiddle.settle seed computed)

theorem Computation.closes (computation : Computation) :
    ∀ {running earlier cache}, cache.Balances capacity running earlier →
      Closes capacity running earlier (computation.ledger cache)
        (computation.run cache).value.2 := by
  induction computation with
  | done outcome =>
    intro running earlier cache hbalances
    exact closes_nil hbalances
  | lookup seed compute next ihcompute ihnext =>
    intro running earlier cache hbalances
    have hlookup := closes_lookup ihcompute hbalances seed
    exact hlookup.append (ihnext _ hlookup.last)

namespace CacheStep

theorem closes (hbalances : cache.Balances capacity running earlier) (step : CacheStep) :
    Closes capacity running earlier (step.ledger cache) (step.run cache).value.2 := by
  cases step with
  | get seed compute => exact closes_lookup compute.closes hbalances seed
  | committee indices seed index count rounds =>
    have hrun : ((committee indices seed index count rounds).run cache).value.2 =
        (Committee.computeCached indices seed index count rounds cache).value.2 := rfl
    rw [hrun, Committee.computeCached, Committee.value_computeOver, ledger]
    cases Committee.bounds indices.size index count with
    | error cause => exact closes_nil hbalances
    | ok edges => exact closes_lookup closes_nil hbalances seed
  | clear => exact closes_single hbalances.clear

theorem closes_all (steps : List CacheStep)
    (hbalances : cache.Balances capacity running earlier) :
    Closes capacity running earlier (ledgerOfAll steps cache) (cacheAfter steps cache) := by
  induction steps generalizing earlier cache with
  | nil => exact closes_nil hbalances
  | cons step steps ih =>
    have hfirst := closes hbalances step
    exact hfirst.append (ih hfirst.last)

end CacheStep

/-! ## Reports -/

/-- Events among which those of a cache are the reports of a ledger, in its order. -/
def Reports (events : List Event) (ledger : List Entry) : Prop :=
  (events.filter fun event => event.component = some "shuffle_cache") =
    (postings ledger).filterMap event?

section Reports

variable {events later : List Event}

theorem Reports.append (hpast : Reports events past) (hrest : Reports later rest) :
    Reports (events ++ later) (past ++ rest) := by
  rw [Reports, List.filter_append, postings_append, List.filterMap_append, hpast, hrest]

/-- Events of others may stand between those of a cache. -/
theorem Reports.append_others (hpast : Reports events past)
    (hothers : ∀ event ∈ later, event.component ≠ some "shuffle_cache") :
    Reports (events ++ later) past := by
  have hnone : (later.filter fun event => event.component = some "shuffle_cache") = [] :=
    List.filter_eq_nil_iff.2 fun event hevent => by simpa using hothers event hevent
  rw [Reports, List.filter_append, hnone, List.append_nil, hpast]

theorem Reports.countP_message (hreports : Reports events past) {message : String}
    (hcache : ∀ event : Event, event.message = message → event.component = some "shuffle_cache") :
    (events.countP fun event => event.message = message) =
      (postings past).countP fun posting =>
        posting.event?.any fun event => event.message = message := by
  have hfilter : (events.countP fun event => event.message = message) =
      (events.filter fun event => event.component = some "shuffle_cache").countP
        fun event => event.message = message := by
    rw [List.countP_filter]
    apply List.countP_congr
    intro event _
    simpa using hcache event
  rw [hfilter, hreports, List.countP_filterMap]
  apply List.countP_congr
  intro posting _
  cases posting.event? with
  | none => simp
  | some event => simp

theorem Reports.countP_stored (hreports : Reports events past) :
    (events.countP fun event => event.message = "Stored shuffle") = stores (postings past) := by
  have hcache : ∀ event : Event, event.message = "Stored shuffle" →
      event.component = some "shuffle_cache" := by
    intro event
    cases event <;> simp [Event.message, Event.component]
  rw [hreports.countP_message hcache]
  apply List.countP_congr
  intro posting _
  cases posting <;> simp [event?, isStored, Event.message]

theorem Reports.countP_adopted (hreports : Reports events past) :
    (events.countP fun event => event.message = "Concurrent shuffle already stored") =
      adoptions (postings past) := by
  have hcache : ∀ event : Event, event.message = "Concurrent shuffle already stored" →
      event.component = some "shuffle_cache" := by
    intro event
    cases event <;> simp [Event.message, Event.component]
  rw [hreports.countP_message hcache]
  apply List.countP_congr
  intro posting _
  cases posting <;> simp [event?, Event.message]

end Reports

theorem reports_settle (cache : ShuffleCache) (seed : Seed) (computed : ShuffledList)
    (last : ShuffleCache) :
    Reports (cache.settle seed computed).events
      [⟨cache.closing seed (.ok computed), last⟩] := by
  rw [ShuffleCache.settle, ShuffleCache.closing]
  cases cache.store.get? seed with
  | some held => rfl
  | none => rfl

/-- A lookup reports what it posts if its computation does. -/
theorem reports_lookup {inner : ShuffleCache → List Entry}
    {compute : ShuffleCache → Reported (Except DutyError ShuffledList × ShuffleCache)}
    (hinner : ∀ cache, Reports (compute cache).events (inner cache)) (cache : ShuffleCache)
    (seed : Seed) :
    Reports (cache.lookup seed compute).events (cache.ledger seed compute inner) := by
  rw [ShuffleCache.ledger, ShuffleCache.lookup]
  cases hheld : cache.store.get? seed with
  | some held => rfl
  | none =>
    have hmiss : Reports [] [⟨.miss, cache.miss⟩] := rfl
    have hcomputed := hmiss.append (hinner cache.miss)
    rcases hcompute : (compute cache.miss).value with ⟨outcome, middle⟩
    cases outcome with
    | error cause =>
      have hfailed : Reports [] [⟨.failed, middle⟩] := rfl
      simpa [hcompute, ShuffleCache.closing] using hcomputed.append hfailed
    | ok computed =>
      have hsettled := reports_settle middle seed computed
      simpa [hcompute] using hcomputed.append (hsettled _)

theorem Computation.reports (computation : Computation) :
    ∀ cache, Reports (computation.run cache).events (computation.ledger cache) := by
  induction computation with
  | done outcome =>
    intro cache
    rfl
  | lookup seed compute next ihcompute ihnext =>
    intro cache
    exact (reports_lookup ihcompute cache seed).append (ihnext _ _)

/-- A success is reported by its own event alone. -/
theorem Reported.mem_events_onSuccess {ε α : Type} {result : Except ε α} {report : α → Event}
    {event : Event} (hevent : event ∈ (onSuccess result report).events) :
    ∃ value, event = report value := by
  cases result with
  | error cause => cases hevent
  | ok value => exact ⟨value, List.mem_singleton.1 hevent⟩

namespace Committee

/-- What is reported on the way to a committee whose slice is in bounds: what its lookup reports,
and then the slice. -/
theorem events_computeOver {σ : Type} (lookup : ShuffleLookup σ) (indices : Array ValidatorIndex)
    (seed : Seed) {index count : Nat} (rounds : UInt8) (kept : σ) {edges : Nat × Nat}
    (hedges : bounds indices.size index count = .ok edges) :
    let found := lookup kept seed fun kept =>
      (·, kept) <$> Shuffle.shuffledReported indices seed rounds
    (computeOver lookup indices seed index count rounds kept).events =
      found.events ++ (cut index count edges.1 edges.2 found.value.1).events := by
  intro found
  rw [computeOver, hedges]
  exact congrArg (found.events ++ ·) (List.append_nil _)

end Committee

namespace CacheStep

theorem reports (step : CacheStep) (cache : ShuffleCache) :
    Reports (step.run cache).events (step.ledger cache) := by
  cases step with
  | get seed compute =>
    have hrun : ((get seed compute).run cache).events =
        (cache.lookup seed compute.run).events := List.append_nil _
    rw [hrun]
    exact reports_lookup compute.reports cache seed
  | committee indices seed index count rounds =>
    have hrun : ((committee indices seed index count rounds).run cache).events =
        (Committee.computeCached indices seed index count rounds cache).events :=
      List.append_nil _
    have hnone : Reports [] [] := rfl
    have hshuffled : ∀ cache : ShuffleCache,
        Reports ((·, cache) <$> Shuffle.shuffledReported indices seed rounds).events [] := by
      intro cache
      rw [Reported.events_map, Shuffle.shuffledReported]
      split
      · exact hnone
      · refine hnone.append_others ?_
        intro event hevent
        rcases Reported.mem_events_onSuccess hevent with ⟨_, rfl⟩
        simp [Event.component]
    rw [hrun, Committee.computeCached, ledger]
    cases hedges : Committee.bounds indices.size index count with
    | error cause =>
      rw [Committee.computeOver, hedges]
      exact hnone
    | ok edges =>
      rw [Committee.events_computeOver _ _ _ _ _ hedges]
      refine (reports_lookup hshuffled cache seed).append_others ?_
      intro event hevent
      rcases Reported.mem_events_onSuccess hevent with ⟨_, rfl⟩
      simp [Event.component]
  | clear => rfl

theorem runAll_reports (steps : List CacheStep) (cache : ShuffleCache) :
    Reports (runAll steps cache).events (ledgerOfAll steps cache) := by
  induction steps generalizing cache with
  | nil => rfl
  | cons step steps ih =>
    have hall := (step.reports cache).append (ih (step.run cache).value.2)
    have hevents : (runAll (step :: steps) cache).events =
        (step.run cache).events ++ (runAll steps (step.run cache).value.2).events := by
      simp [runAll]
    rwa [hevents]

/-! ## Books -/

/-- Whenever something has changed, inside computations as well as between requests, the hits and
misses of a cache are the lookups that have been made, its misses are the computations that have
started, and those are the ones that have failed, that were stored, that adopted another shuffle or
that are still running.  It holds no more entries than it has room for or has stored.  Between two
requests no computation is running, and each store and adoption has been reported once.  A clear
only takes the entries away. -/
theorem runAll_balances (capacity : Nat) (steps : List CacheStep) :
    (∀ (past : List Entry) (entry : Entry) (rest : List Entry),
      ledgerOfAll steps (.empty capacity) = past ++ entry :: rest →
      ∃ running, entry.cache.Balances (max capacity 1) running (postings (past ++ [entry]))) ∧
    Reports (runAll steps (.empty capacity)).events (ledgerOfAll steps (.empty capacity)) ∧
    (∀ count answer cache, (runAll steps (.empty capacity)).value[count]? = some (answer, cache) →
      let made := postings (ledgerOfAll (steps.take (count + 1)) (.empty capacity))
      let events := (runAll (steps.take (count + 1)) (.empty capacity)).events
      ShuffleCache.Balances (max capacity 1) 0 made cache ∧
      (events.countP fun event => event.message = "Stored shuffle") = stores made ∧
      (events.countP fun event => event.message = "Concurrent shuffle already stored") =
        adoptions made) ∧
    ∀ cache : ShuffleCache,
      (clear.run cache).value.2.stats = { cache.stats with entries := 0 } := by
  have hempty := ShuffleCache.balances_empty capacity
  refine ⟨?_, runAll_reports steps _, ?_, fun _ => rfl⟩
  · intro past entry rest hsplit
    have hentries := (closes_all steps hempty).entries
    rw [hsplit] at hentries
    rcases allBalanced_append.1 hentries with ⟨_, hentry, _⟩
    rwa [postings_append]
  · intro count answer cache hanswer
    have hreports := runAll_reports (steps.take (count + 1)) (.empty capacity)
    rw [eq_cacheAfter hanswer]
    exact ⟨(closes_all _ hempty).last, hreports.countP_stored, hreports.countP_adopted⟩

/-- A computation that looks its own seed up, one that fails, a hit, and a clear.  While the first
one runs, its own lookup stores a shuffle. -/
theorem runAll_balances_reentrant :
    let other : Seed := Vector.replicate 32 1
    let reentrant := Computation.afterLookups [(zeroHash, #[1])] (.ok #[2])
    let steps : List CacheStep :=
      [.get zeroHash reentrant, .get other (.done (.error .emptyCandidates)),
        .get zeroHash reentrant, .clear]
    (∃ past entry rest, ledgerOfAll steps (.empty 2) = past ++ entry :: rest ∧
      postings (past ++ [entry]) = [.miss, .miss, .stored 1 1] ∧
      entry.cache.Balances 2 1 [.miss, .miss, .stored 1 1]) ∧
    ∃ answer cache, (runAll steps (.empty 2)).value[3]? = some (answer, cache) ∧
      cache.Balances 2 0 [.miss, .miss, .stored 1 1, .adopted, .miss, .failed, .hit, .cleared] ∧
      cache.stats = ⟨0, 2, 1, 3⟩ := by
  intro other reentrant steps
  rcases runAll_balances 2 steps with ⟨hentries, _, hrequests, _⟩
  constructor
  · rcases hentries [_, _] _ _ rfl with ⟨running, hbalances⟩
    refine ⟨[_, _], _, _, rfl, rfl, ?_⟩
    have hends : 2 = 0 + 1 + 0 + running := hbalances.runs_eq.symm.trans hbalances.ends_eq
    have hrunning : running = 1 := by omega
    rwa [hrunning] at hbalances
  · exact ⟨_, _, rfl, (hrequests 3 _ _ rfl).1, rfl⟩

end CacheStep

end BeaconDuties
