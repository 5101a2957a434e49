import BeaconDuties.RecencyStore
import Mathlib

/-!
# Lookup — what a bounded map holds after a change

A bounded map may forget, but it never makes up a value: what it holds for a key after a change was
either put there by that change or held before.

* `RecencyStore.get?_eq_some_iff` — to hold a value is to list it, since no key is listed twice;
* `RecencyStore.get?_insert`, `RecencyStore.get?_touch` — where a held value comes from;
* `RecencyStore.size_insert_le`, `RecencyStore.size_touch_le` — how many entries there are.
-/

namespace BeaconDuties

namespace RecencyStore

variable {κ υ : Type} [DecidableEq κ] {store : RecencyStore κ υ} {key other : κ} {value found : υ}

theorem get?_eq_some_iff : store.get? key = some value ↔ (key, value) ∈ store.entries := by
  rw [get?, Option.map_eq_some_iff]
  constructor
  · rintro ⟨entry, hfind, rfl⟩
    have hkey : entry.1 = key := by simpa using List.find?_some hfind
    rw [← hkey]
    exact List.mem_of_find?_eq_some hfind
  · intro hmem
    cases hfind : store.entries.find? fun entry => entry.1 = key with
    | none =>
      have hnone := List.find?_eq_none.1 hfind (key, value) hmem
      simp at hnone
    | some entry =>
      -- The entry found first is the listed one, as no two entries share a key.
      have hkey : entry.1 = key := by simpa using List.find?_some hfind
      have hsame : entry = (key, value) :=
        List.inj_on_of_nodup_map store.nodup_keys (List.mem_of_find?_eq_some hfind) hmem hkey
      exact ⟨entry, rfl, by rw [hsame]⟩

@[simp] theorem get?_empty (capacity : Nat) (key : κ) :
    (empty capacity : RecencyStore κ υ).get? key = none := rfl

@[simp] theorem get?_clear (store : RecencyStore κ υ) (key : κ) : store.clear.get? key = none := rfl

/-- An insertion adds its own value, and keeps some of what was held under other keys. -/
theorem get?_insert (hfound : (store.insert key value).get? other = some found) :
    (other = key ∧ found = value) ∨ store.get? other = some found := by
  have hmem : (other, found) ∈ foremost key value store.entries :=
    List.mem_of_mem_take (get?_eq_some_iff.1 hfound)
  rcases List.mem_cons.1 hmem with hnew | hold
  · exact .inl (Prod.mk.inj hnew)
  · exact .inr (get?_eq_some_iff.2 (List.mem_filter.1 hold).1)

/-- A touch changes the order, never a value. -/
theorem get?_touch (hfound : (store.touch key).get? other = some found) :
    store.get? other = some found := by
  rw [touch] at hfound
  split at hfound
  · rename_i value hheld
    rcases get?_insert hfound with ⟨rfl, rfl⟩ | hold
    · exact hheld
    · exact hold
  · exact hfound

/-! ## Sizes -/

theorem capacity_touch (store : RecencyStore κ υ) (key : κ) :
    (store.touch key).capacity = store.capacity := by
  rw [touch]
  split
  · rfl
  · rfl

theorem size_insert_le (store : RecencyStore κ υ) (key : κ) (value : υ) :
    (store.insert key value).size ≤ store.size + 1 := by
  have hothers := List.length_filter_le (fun entry => decide (entry.1 ≠ key)) store.entries
  simp only [size, insert, foremost, List.length_take, List.length_cons]
  omega

/-- A touch puts an entry in the place of one that it takes away. -/
theorem size_touch_le (store : RecencyStore κ υ) (key : κ) :
    (store.touch key).size ≤ store.size := by
  rw [touch]
  cases hheld : store.get? key with
  | none => exact Nat.le_refl _
  | some value =>
    have hothers : (store.entries.filter fun entry => decide (entry.1 ≠ key)).length <
        store.entries.length :=
      List.length_filter_lt_length_iff_exists.2 ⟨_, get?_eq_some_iff.1 hheld, by simp⟩
    simp only [size, insert, foremost, List.length_take, List.length_cons]
    omega

end RecencyStore

end BeaconDuties
