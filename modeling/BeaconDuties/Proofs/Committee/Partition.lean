import BeaconDuties.Committee
import BeaconDuties.Proofs.Shuffle.InPlace

/-!
# Partition — committees share out one shuffle

The slices of a shuffle of `size` entries meet at the edges `size * k / count`.  Rounding down keeps
the edges in order, puts the first at zero and the last at `size`, and spaces neighbours by the
quotient `size / count` or by one more.

* `Committee.edge` — where a slice starts and its predecessor stops;
* `Committee.edge_succ_le`, `Committee.le_edge_succ` — how far two neighbouring edges lie apart;
* `Committee.value_compute_of_lt` — a committee below the count is its slice of the shuffle;
* `Committee.compute_partitions` — all committees of a count, one after the other, are the shuffle.
-/

namespace BeaconDuties

namespace Committee

variable {size count index : Nat}

/-! ## Edges -/

/-- Where slice `index` of `count` starts. -/
def edge (size count index : Nat) : Nat :=
  size * index / count

theorem edge_zero (size count : Nat) : edge size count 0 = 0 := by
  simp [edge]

theorem edge_count (size : Nat) (hcount : 0 < count) : edge size count count = size :=
  Nat.mul_div_cancel size hcount

theorem edge_mono (size count : Nat) {index later : Nat} (hle : index ≤ later) :
    edge size count index ≤ edge size count later :=
  Nat.div_le_div_right (Nat.mul_le_mul_left size hle)

theorem edge_le_size (size : Nat) (hle : index ≤ count) : edge size count index ≤ size := by
  rcases Nat.eq_zero_or_pos count with rfl | hcount
  · -- Division by zero gives zero.
    simp [edge]
  · have hlast := edge_mono size count hle
    rwa [edge_count size hcount] at hlast

theorem edge_succ_le_size (size : Nat) (hindex : index < count) :
    edge size count (index + 1) ≤ size :=
  edge_le_size size hindex

/-- A slice holds at least the quotient. -/
theorem le_edge_succ (size count index : Nat) :
    edge size count index + size / count ≤ edge size count (index + 1) := by
  rw [edge, edge, Nat.mul_succ]
  exact Nat.div_add_div_le_add_div

/-- A slice holds at most one more than the quotient. -/
theorem edge_succ_le (size index : Nat) (hcount : 0 < count) :
    edge size count (index + 1) ≤ edge size count index + size / count + 1 := by
  rw [edge, edge, Nat.mul_succ, Nat.add_div hcount]
  split <;> omega

/-! ## Slices -/

/-- A slice that ends inside the list runs from edge to edge. -/
theorem bounds_of_edge_le (hcount : 0 < count) (hstop : edge size count (index + 1) ≤ size) :
    bounds size index count = .ok (edge size count index, edge size count (index + 1)) := by
  rw [bounds, if_neg hcount.ne']
  exact if_neg (Nat.not_lt.2 hstop)

theorem slice_of_le {shuffle : ShuffledList} {start stop : Nat} (hle : start ≤ stop)
    (hstop : stop ≤ shuffle.size) : slice shuffle start stop = .ok (shuffle.extract start stop) :=
  if_pos ⟨hle, hstop⟩

/-- Slices written one after the other are the list up to their last edge. -/
theorem flatMap_slices {α : Type} (items : Array α) (count taken : Nat) :
    ((List.range taken).flatMap fun index =>
      (items.extract (edge items.size count index) (edge items.size count (index + 1))).toList) =
      (items.extract 0 (edge items.size count taken)).toList := by
  induction taken with
  | zero => simp [edge_zero]
  | succ taken ih =>
    have hle := edge_mono items.size count (Nat.le_succ taken)
    -- The next slice starts where the ones before it stop.
    have hjoin : items.extract 0 (edge items.size count taken) ++
        items.extract (edge items.size count taken) (edge items.size count (taken + 1)) =
          items.extract 0 (edge items.size count (taken + 1)) := by
      rw [Array.extract_append_extract, Nat.zero_min, Nat.max_eq_right hle]
    rw [List.range_succ, List.flatMap_append, ih, List.flatMap_singleton, ← Array.toList_append,
      hjoin]

/-! ## Committees -/

/-- A committee is the slice of whatever shuffle the lookup gives, and nothing is looked up for a
slice that does not exist. -/
theorem value_computeOver {σ : Type} (lookup : ShuffleLookup σ) (indices : Array ValidatorIndex)
    (seed : Seed) (index count : Nat) (rounds : UInt8) (kept : σ) :
    (computeOver lookup indices seed index count rounds kept).value =
      match bounds indices.size index count with
      | .error cause => (.error cause, kept)
      | .ok (start, stop) =>
        let found := (lookup kept seed fun kept =>
          (·, kept) <$> Shuffle.shuffledReported indices seed rounds).value
        (found.1.bind fun shuffle => slice shuffle start stop, found.2) := by
  rw [computeOver]
  cases bounds indices.size index count with
  | error cause => rfl
  | ok edges => rfl

theorem value_shuffledReported {α : Type} (items : Array α) (seed : Seed) (rounds : UInt8) :
    (Shuffle.shuffledReported items seed rounds).value = Shuffle.shuffled items seed rounds := by
  rw [Shuffle.shuffledReported]
  split <;> rfl

theorem value_compute (indices : Array ValidatorIndex) (seed : Seed) (index count : Nat)
    (rounds : UInt8) :
    (compute indices seed index count rounds).value =
      (bounds indices.size index count).bind fun (start, stop) =>
        (Shuffle.shuffled indices seed rounds).bind fun shuffle => slice shuffle start stop := by
  rw [compute, Reported.value_map, value_computeOver]
  cases bounds indices.size index count with
  | error cause => rfl
  | ok edges =>
    simp only [ShuffleLookup.uncached, Reported.value_map, value_shuffledReported]
    rfl

variable {indices : Array ValidatorIndex}

/-- A committee whose slice ends inside the list is that slice of the shuffle. -/
theorem value_compute_of_edge_le (seed : Seed) (rounds : UInt8) (hcount : 0 < count)
    (hstop : edge indices.size count (index + 1) ≤ indices.size)
    (hfits : indices.size ≤ maxListSize) :
    (compute indices seed index count rounds).value =
      .ok ((Shuffle.walkRounds seed indices rounds).extract
        (edge indices.size count index) (edge indices.size count (index + 1))) := by
  have hstop' : edge indices.size count (index + 1) ≤
      (Shuffle.walkRounds seed indices rounds).size := by
    rwa [Shuffle.size_walkRounds]
  rw [value_compute, bounds_of_edge_le hcount hstop, Shuffle.shuffled_of_le seed rounds hfits]
  exact slice_of_le (edge_mono indices.size count (Nat.le_succ index)) hstop'

/-- A committee below the count is its slice of the shuffle. -/
theorem value_compute_of_lt (seed : Seed) (rounds : UInt8) (hindex : index < count)
    (hfits : indices.size ≤ maxListSize) :
    (compute indices seed index count rounds).value =
      .ok ((Shuffle.walkRounds seed indices rounds).extract
        (edge indices.size count index) (edge indices.size count (index + 1))) :=
  value_compute_of_edge_le seed rounds (Nat.zero_lt_of_lt hindex)
    (edge_succ_le_size indices.size hindex) hfits

/-- Any two slices differ in size by at most one. -/
theorem size_extract_le_succ (items : Array ValidatorIndex) {other : Nat} (hindex : index < count)
    (hother : other < count) :
    (items.extract (edge items.size count index) (edge items.size count (index + 1))).size ≤
      (items.extract (edge items.size count other) (edge items.size count (other + 1))).size + 1 := by
  -- Both sizes are the quotient or one more.
  have hupper := edge_succ_le items.size index (Nat.zero_lt_of_lt hindex)
  have hlower := le_edge_succ items.size count other
  rw [Array.size_extract, Array.size_extract, Nat.min_eq_left (edge_succ_le_size _ hindex),
    Nat.min_eq_left (edge_succ_le_size _ hother)]
  omega

/-- Member `place` of the slice between two edges of a shuffle is the entry that the shuffle of a
single position names for its place in the whole list. -/
theorem getElem?_extract_walkRounds (seed : Seed) (rounds : UInt8)
    (hfits : indices.size ≤ maxListSize) {start stop place : Nat}
    (hplace : place < ((Shuffle.walkRounds seed indices rounds).extract start stop).size) :
    ∃ target : Fin indices.size,
      Shuffle.shuffledIndex (start + place) indices.size seed rounds = .ok target.val ∧
        ((Shuffle.walkRounds seed indices rounds).extract start stop)[place]? =
          some indices[target] := by
  rw [Array.size_extract, Shuffle.size_walkRounds] at hplace
  have hposition : start + place < indices.size := by omega
  refine ⟨Shuffle.positionPerm seed indices.size rounds ⟨start + place, hposition⟩,
    Shuffle.shuffledIndex_eq_ok seed rounds hfits ⟨start + place, hposition⟩, ?_⟩
  calc
    ((Shuffle.walkRounds seed indices rounds).extract start stop)[place]?
        = (Shuffle.walkRounds seed indices rounds)[start + place]? := by
          rw [Array.getElem?_extract, Shuffle.size_walkRounds, if_pos hplace]
    _ = some indices[Shuffle.positionPerm seed indices.size rounds ⟨start + place, hposition⟩] :=
        Shuffle.getElem?_walkRounds seed indices rounds ⟨start + place, hposition⟩

/-- The committees of a count share out a list of validators: each of them is computed, one after
the other they are the shuffled list, which has the same entries as the list, each member is the one
that the shuffle of a single position names for its place, and no two differ in size by more than
one. -/
theorem compute_partitions (indices : Array ValidatorIndex) (seed : Seed) (rounds : UInt8)
    (count : Nat) (hcount : 1 ≤ count) (hfits : indices.size ≤ 2 ^ 40) :
    ∃ committee : Nat → Array ValidatorIndex,
      (∀ index < count, (compute indices seed index count rounds).value = .ok (committee index)) ∧
      (∃ shuffle, Shuffle.shuffled indices seed rounds = .ok shuffle ∧
        ((List.range count).flatMap fun index => (committee index).toList) = shuffle.toList ∧
        shuffle.toList.Perm indices.toList) ∧
      (∀ index < count, ∀ place < (committee index).size, ∃ target : Fin indices.size,
        Shuffle.shuffledIndex (indices.size * index / count + place) indices.size seed rounds =
          .ok target.val ∧
        (committee index)[place]? = some indices[target]) ∧
      (∀ index < count, ∀ other < count,
        (committee index).size ≤ (committee other).size + 1) := by
  rw [← maxListSize_eq_two_pow] at hfits
  have hsize := Shuffle.size_walkRounds seed indices rounds
  refine ⟨fun index => (Shuffle.walkRounds seed indices rounds).extract
    (edge indices.size count index) (edge indices.size count (index + 1)), ?_, ?_, ?_, ?_⟩
  · intro index hindex
    exact value_compute_of_lt seed rounds hindex hfits
  · refine ⟨_, Shuffle.shuffled_of_le seed rounds hfits, ?_,
      Shuffle.walkRounds_perm seed indices rounds⟩
    -- The last edge is the size, so the slices reach the end of the shuffle.
    have hslices := flatMap_slices (Shuffle.walkRounds seed indices rounds) count count
    rw [edge_count _ hcount, Array.extract_size, hsize] at hslices
    exact hslices
  · intro index _ place hplace
    exact getElem?_extract_walkRounds seed rounds hfits hplace
  · intro index hindex other hother
    have hbalanced :=
      size_extract_le_succ (Shuffle.walkRounds seed indices rounds) hindex hother
    rwa [hsize] at hbalanced

/-- Three validators, one of them listed twice, in five committees. -/
theorem compute_partitions_five :
    1 ≤ 5 ∧ (#[7, 7, 9] : Array ValidatorIndex).size ≤ 2 ^ 40 ∧
      ∃ committee : Nat → Array ValidatorIndex,
        (∀ index < 5, (compute #[7, 7, 9] zeroHash index 5 1).value = .ok (committee index)) ∧
        ((List.range 5).flatMap fun index => (committee index).toList).Perm [7, 7, 9] := by
  rcases compute_partitions #[7, 7, 9] zeroHash 1 5 (by decide) (by decide) with
    ⟨committee, hcompute, ⟨shuffle, _, hconcat, hperm⟩, _, _⟩
  refine ⟨by decide, by decide, committee, hcompute, ?_⟩
  rw [hconcat]
  exact hperm

end Committee

end BeaconDuties
