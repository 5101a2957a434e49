/-!
# RecencyStore — a bounded map that forgets its least recently used key

A store holds at most `capacity` entries, listed from the most to the least recently used key.
Inserting or touching a key brings it to the front; what falls off the far end is forgotten.

* `RecencyStore` — the entries with the three facts every operation keeps: some entry fits, no more
  than `capacity` are held, and no key is held twice;
* `RecencyStore.get?` — a look without a trace;
* `RecencyStore.insert`, `RecencyStore.touch`, `RecencyStore.clear` — the changes.
-/

namespace BeaconDuties

/-- A bounded map, most recently used key first. -/
structure RecencyStore (κ υ : Type) where
  capacity : Nat
  entries : List (κ × υ)
  capacity_pos : 0 < capacity
  length_le : entries.length ≤ capacity
  nodup_keys : (entries.map Prod.fst).Nodup

namespace RecencyStore

variable {κ υ : Type}

/-- An empty store for `capacity` entries, and for one if that is none. -/
def empty (capacity : Nat) : RecencyStore κ υ where
  capacity := max capacity 1
  entries := []
  capacity_pos := by omega
  length_le := by simp
  nodup_keys := by simp

def keys (store : RecencyStore κ υ) : List κ :=
  store.entries.map Prod.fst

def size (store : RecencyStore κ υ) : Nat :=
  store.entries.length

def clear (store : RecencyStore κ υ) : RecencyStore κ υ where
  capacity := store.capacity
  entries := []
  capacity_pos := store.capacity_pos
  length_le := by simp
  nodup_keys := by simp

variable [DecidableEq κ]

/-- The value held for a key, leaving its recency alone. -/
def get? (store : RecencyStore κ υ) (key : κ) : Option υ :=
  (store.entries.find? fun entry => entry.1 = key).map Prod.snd

def contains (store : RecencyStore κ υ) (key : κ) : Bool :=
  (store.get? key).isSome

/-- The entries with `key` brought to the front and given a value. -/
def foremost (key : κ) (value : υ) (entries : List (κ × υ)) : List (κ × υ) :=
  (key, value) :: entries.filter fun entry => entry.1 ≠ key

theorem nodup_keys_foremost (key : κ) (value : υ) {entries : List (κ × υ)}
    (distinct : (entries.map Prod.fst).Nodup) :
    ((foremost key value entries).map Prod.fst).Nodup := by
  rw [foremost, List.map_cons, List.nodup_cons]
  constructor
  · simp
  · exact distinct.sublist (List.filter_sublist.map Prod.fst)

/-- Holds a value for a key, as the most recently used one. -/
def insert (store : RecencyStore κ υ) (key : κ) (value : υ) : RecencyStore κ υ where
  capacity := store.capacity
  entries := (foremost key value store.entries).take store.capacity
  capacity_pos := store.capacity_pos
  length_le := by rw [List.length_take]; omega
  nodup_keys :=
    (nodup_keys_foremost key value store.nodup_keys).sublist ((List.take_sublist ..).map Prod.fst)

/-- Makes a held key the most recently used one. -/
def touch (store : RecencyStore κ υ) (key : κ) : RecencyStore κ υ :=
  match store.get? key with
  | some value => store.insert key value
  | none => store

end RecencyStore

end BeaconDuties
