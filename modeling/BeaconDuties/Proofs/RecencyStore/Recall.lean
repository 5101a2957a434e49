import BeaconDuties.Proofs.RecencyStore.Lookup

/-!
# Recall — a bounded map holds the latest part of its history

Let a history be the uses of a bounded map, the latest use first: each names a key and the value
that the key had then.  A map that is changed by insertions and touches alone holds the keys that
come first in its history, as many as it has room for, and for each of them its latest value.

* `RecencyStore.Recalls` — a map that holds just this part of a history;
* `RecencyStore.recalls_empty`, `RecencyStore.recalls_clear` — a fresh start recalls nothing;
* `RecencyStore.Recalls.insert`, `RecencyStore.Recalls.touch` — one more use.
-/

namespace BeaconDuties

/-! ## Distinct entries of a list -/

section Distinct

variable {κ : Type} [DecidableEq κ]

/-- Leaving entries out commutes with leaving repetitions out. -/
theorem eraseDups_filter (keep : κ → Bool) :
    ∀ keys : List κ, (keys.filter keep).eraseDups = keys.eraseDups.filter keep
  | [] => by simp
  | key :: keys => by
    -- The rest of a list without repetitions is a shorter list without them.
    have hrest := eraseDups_filter keep (keys.filter fun other => !other == key)
    cases hkeep : keep key with
    | true =>
      have hswap : (keys.filter keep).filter (fun other => !other == key) =
          (keys.filter fun other => !other == key).filter keep := by
        simp [List.filter_filter, Bool.and_comm]
      calc
        ((key :: keys).filter keep).eraseDups
            = key :: ((keys.filter keep).filter fun other => !other == key).eraseDups := by
              rw [List.filter_cons_of_pos hkeep, List.eraseDups_cons]
        _ = key :: (keys.filter fun other => !other == key).eraseDups.filter keep := by
              rw [hswap, hrest]
        _ = (key :: keys).eraseDups.filter keep := by
              rw [List.eraseDups_cons, List.filter_cons_of_pos hkeep]
    | false =>
      -- What is kept is not the head, so leaving the head out first changes nothing.
      have hapart : (keys.filter fun other => !other == key).filter keep = keys.filter keep := by
        rw [List.filter_filter]
        apply List.filter_congr
        intro other _
        by_cases hother : other = key <;> simp [hother, hkeep]
      simp [List.eraseDups_cons, hkeep, ← hrest, hapart]
termination_by keys => keys.length
decreasing_by
  have hshorter := List.length_filter_le (fun other => !other == key) keys
  exact Nat.lt_succ_of_le hshorter

theorem nodup_eraseDups (keys : List κ) : keys.eraseDups.Nodup := by
  match keys with
  | [] => simp
  | key :: keys =>
    have hrest := nodup_eraseDups (keys.filter fun other => !other == key)
    have hfresh : key ∉ (keys.filter fun other => !other == key).eraseDups := by simp
    simpa [List.eraseDups_cons] using And.intro hfresh hrest
termination_by keys.length
decreasing_by
  have hshorter := List.length_filter_le (fun other => !other == key) keys
  exact Nat.lt_succ_of_le hshorter

/-- Of a list without repetitions, one entry past the first `n` makes up for one left out. -/
theorem take_filter_ne_take_succ (key : κ) (n : Nat) {keys : List κ} (hdistinct : keys.Nodup) :
    ((keys.take (n + 1)).filter fun other => other ≠ key).take n =
      (keys.filter fun other => other ≠ key).take n := by
  induction keys generalizing n with
  | nil => simp
  | cons first keys ih =>
    rcases List.nodup_cons.1 hdistinct with ⟨hfresh, hdistinct⟩
    by_cases hfirst : first = key
    · -- The entry left out is this one, and no other entry is like it.
      subst hfirst
      have hkeep : ∀ other ∈ keys, decide (other ≠ first) = true := by
        intro other hother
        have hne : other ≠ first := ne_of_mem_of_not_mem hother hfresh
        simpa using hne
      have hall : (keys.filter fun other => other ≠ first) = keys := List.filter_eq_self.2 hkeep
      have htaken : ((keys.take n).filter fun other => other ≠ first) = keys.take n :=
        List.filter_eq_self.2 fun other hother => hkeep other (List.mem_of_mem_take hother)
      calc
        (((first :: keys).take (n + 1)).filter fun other => other ≠ first).take n
            = (keys.take n).take n := by
              rw [List.take_succ_cons, List.filter_cons_of_neg (by simp), htaken]
        _ = keys.take n := by rw [List.take_take, Nat.min_self]
        _ = ((first :: keys).filter fun other => other ≠ first).take n := by
              rw [List.filter_cons_of_neg (by simp), hall]
    · cases n with
      | zero => simp
      | succ n => simpa [hfirst] using ih n hdistinct

end Distinct

/-! ## Histories -/

namespace RecencyStore

variable {κ υ : Type} [DecidableEq κ] {store : RecencyStore κ υ} {history : List (κ × υ)}
  {key other : κ} {value : υ}

/-- What a map with room for `capacity` keys recalls of a history, the latest use first: the first
`capacity` distinct keys in this order, and for each of them its first value. -/
structure Recalls (capacity : Nat) (history : List (κ × υ)) (store : RecencyStore κ υ) : Prop where
  capacity_eq : store.capacity = capacity
  keys_eq : store.keys = (history.map Prod.fst).eraseDups.take capacity
  get?_eq : ∀ key ∈ store.keys, store.get? key = history.lookup key

theorem recalls_empty (capacity : Nat) :
    Recalls (max capacity 1) [] (empty capacity : RecencyStore κ υ) where
  capacity_eq := rfl
  keys_eq := by simp [keys, empty]
  get?_eq := by simp [keys, empty]

theorem recalls_clear (store : RecencyStore κ υ) : Recalls store.capacity [] store.clear where
  capacity_eq := rfl
  keys_eq := by simp [keys, clear]
  get?_eq := by simp [keys, clear]

theorem mem_keys_iff : key ∈ store.keys ↔ ∃ value, store.get? key = some value := by
  simp [keys, get?_eq_some_iff]

/-! ## One more use -/

theorem keys_insert (store : RecencyStore κ υ) (key : κ) (value : υ) :
    (store.insert key value).keys =
      (key :: store.keys.filter fun other => other ≠ key).take store.capacity := by
  simp [keys, insert, foremost, List.map_take, List.filter_map, Function.comp_def]

theorem get?_insert_self (store : RecencyStore κ υ) (key : κ) (value : υ) :
    (store.insert key value).get? key = some value := by
  -- The new entry is the first one, and there is room for one.
  rcases Nat.exists_eq_add_of_lt store.capacity_pos with ⟨room, hroom⟩
  apply get?_eq_some_iff.2
  simp [insert, foremost, hroom]

theorem Recalls.insert {capacity : Nat} (hrecalls : Recalls capacity history store) (key : κ)
    (value : υ) : Recalls capacity ((key, value) :: history) (store.insert key value) where
  capacity_eq := hrecalls.capacity_eq
  keys_eq := by
    have hcapacity := hrecalls.capacity_eq
    rcases Nat.exists_eq_add_of_lt store.capacity_pos with ⟨room, hroom⟩
    -- The capacity leaves `room` places beside the new key's.
    have hroom : capacity = room + 1 := by omega
    have hdistinct := nodup_eraseDups (history.map Prod.fst)
    have hmakeup := take_filter_ne_take_succ key room hdistinct
    have hlater : ((history.map Prod.fst).filter fun other => !other == key).eraseDups =
        (history.map Prod.fst).eraseDups.filter fun other => other ≠ key := by
      simpa [Bool.beq_eq_decide_eq] using
        eraseDups_filter (fun other => decide (other ≠ key)) (history.map Prod.fst)
    calc
      (store.insert key value).keys
          = (key :: store.keys.filter fun other => other ≠ key).take (room + 1) := by
            rw [keys_insert, hcapacity, hroom]
      _ = key :: ((history.map Prod.fst).eraseDups.filter fun other => other ≠ key).take room := by
            rw [List.take_succ_cons, hrecalls.keys_eq, hroom, hmakeup]
      _ = (((key, value) :: history).map Prod.fst).eraseDups.take capacity := by
            rw [List.map_cons, List.eraseDups_cons, hlater, hroom, List.take_succ_cons]
  get?_eq := by
    intro other hother
    by_cases hkey : other = key
    · subst hkey
      simp [get?_insert_self]
    · -- Another key that is still held was held before, with the same value.
      rcases mem_keys_iff.1 hother with ⟨found, hfound⟩
      have hold : store.get? other = some found := by
        rcases get?_insert hfound with ⟨hsame, _⟩ | hold
        · exact (hkey hsame).elim
        · exact hold
      have hkept := hrecalls.get?_eq other (mem_keys_iff.2 ⟨found, hold⟩)
      have hskip : ((key, value) :: history).lookup other = history.lookup other := by
        have hdiffers : (other == key) = false := beq_false_of_ne hkey
        simp [List.lookup_cons, hdiffers]
      rw [hfound, hskip, ← hkept, hold]

theorem Recalls.touch {capacity : Nat} (hrecalls : Recalls capacity history store)
    (hheld : store.get? key = some value) :
    Recalls capacity ((key, value) :: history) (store.touch key) := by
  have htouch : store.touch key = store.insert key value := by
    simp [RecencyStore.touch, hheld]
  rw [htouch]
  exact hrecalls.insert key value

end RecencyStore

end BeaconDuties
