import BeaconDuties.Proofs.Committee.Partition

/-!
# Admission — which committees are cut and which are refused

A committee is refused if its slice ends beyond the list; its index is not compared with the count.
No slice below the count ends beyond the list.  A slice past the count does as soon as the slices
after the last one would have taken an entry, and the first of them does if there are at least as
many entries as committees.  With fewer entries it need not, and then the committee past the count
is cut like the others, with nobody in it.

* `Committee.Admits` — when a slice ends inside the list;
* `Committee.edge_count_add` — the edges past the last one;
* `Committee.bounds_eq_ok_iff_admits`, `Committee.value_compute_eq_ok_iff_admits` — slices and
  committees;
* `Committee.compute_admits` — all of it, for every size, index and count;
* `Committee.compute_admits_past_count` — a fifth committee of four.
-/

namespace BeaconDuties

namespace Committee

variable {size index count : Nat}

/-! ## Edges past the last one -/

/-- Past the last edge the edges repeat, one list further on. -/
theorem edge_count_add (size : Nat) (hcount : 0 < count) (excess : Nat) :
    edge size count (count + excess) = size + edge size count excess := by
  rw [edge, edge, Nat.mul_add, Nat.mul_comm size count, Nat.mul_add_div hcount]

theorem size_le_edge (size : Nat) (hcount : 0 < count) (hpast : count ≤ index) :
    size ≤ edge size count index := by
  have hlast := edge_mono size count hpast
  rwa [edge_count size hcount] at hlast

/-- A slice ends inside the list: it is below the count, or the slices from the count up to it do
not take an entry together. -/
def Admits (size index count : Nat) : Prop :=
  index < count ∨ size * (index + 1 - count) < count

theorem Admits.count_pos (hadmits : Admits size index count) : 0 < count := by
  rcases hadmits with hbelow | hshort
  · exact Nat.zero_lt_of_lt hbelow
  · exact Nat.zero_lt_of_lt hshort

theorem edge_succ_le_size_iff (hcount : 0 < count) :
    edge size count (index + 1) ≤ size ↔ Admits size index count := by
  rcases Nat.lt_or_ge index count with hbelow | hpast
  · exact iff_of_true (edge_succ_le_size size hbelow) (.inl hbelow)
  · rcases Nat.exists_eq_add_of_le (Nat.le_add_right_of_le hpast) with ⟨excess, hexcess⟩
    have hedge : edge size count (index + 1) = size + edge size count excess := by
      rw [hexcess, edge_count_add size hcount]
    have hnone : edge size count excess = 0 ↔ size * excess < count :=
      Nat.div_eq_zero_iff_lt hcount
    have hskipped : index + 1 - count = excess := by omega
    rw [hedge, Admits, hskipped]
    omega

/-- If there are no more committees than entries, nothing past the count is admitted. -/
theorem admits_iff_lt (hmany : count ≤ size) : Admits size index count ↔ index < count := by
  refine ⟨?_, .inl⟩
  rintro (hbelow | hshort)
  · exact hbelow
  · by_contra hpast
    have hentry : size ≤ size * (index + 1 - count) := Nat.le_mul_of_pos_right _ (by omega)
    omega

/-! ## Slices and committees -/

theorem Admits.edge_succ_le (hadmits : Admits size index count) :
    edge size count (index + 1) ≤ size :=
  (edge_succ_le_size_iff hadmits.count_pos).2 hadmits

/-- A slice past the count that ends inside the list holds nothing. -/
theorem Admits.edge_eq (hadmits : Admits size index count) (hpast : count ≤ index) :
    edge size count index = size ∧ edge size count (index + 1) = size := by
  have hstart := size_le_edge size hadmits.count_pos hpast
  have horder := edge_mono size count (Nat.le_add_right index 1)
  have hstop := hadmits.edge_succ_le
  exact ⟨by omega, by omega⟩

/-- What is not admitted is refused for its slice, or because there are no committees at all. -/
theorem bounds_of_not_admits (hrefused : ¬ Admits size index count) :
    bounds size index count = .error (if count = 0 then .invalidArgument .noCommittees
      else .committeeOutOfBounds (edge size count index) (edge size count (index + 1)) size) := by
  rw [bounds]
  split_ifs with hnone
  · rfl
  · have hstop : size < edge size count (index + 1) :=
      Nat.not_le.1 (mt (edge_succ_le_size_iff (Nat.pos_of_ne_zero hnone)).1 hrefused)
    exact if_pos hstop

theorem bounds_eq_ok_iff_admits :
    (∃ edges, bounds size index count = .ok edges) ↔ Admits size index count := by
  constructor
  · rintro ⟨edges, hedges⟩
    by_contra hrefused
    rw [bounds_of_not_admits hrefused] at hedges
    cases hedges
  · intro hadmits
    exact ⟨_, bounds_of_edge_le hadmits.count_pos hadmits.edge_succ_le⟩

variable {indices : Array ValidatorIndex}

theorem value_compute_of_not_admits (seed : Seed) (rounds : UInt8)
    (hrefused : ¬ Admits indices.size index count) :
    ∃ cause, (compute indices seed index count rounds).value = .error cause := by
  rw [value_compute, bounds_of_not_admits hrefused]
  exact ⟨_, rfl⟩

theorem value_compute_eq_ok_iff_admits (seed : Seed) (rounds : UInt8)
    (hfits : indices.size ≤ maxListSize) :
    (∃ members, (compute indices seed index count rounds).value = .ok members) ↔
      Admits indices.size index count := by
  constructor
  · rintro ⟨members, hmembers⟩
    by_contra hrefused
    rcases value_compute_of_not_admits seed rounds hrefused with ⟨cause, hcause⟩
    rw [hcause] at hmembers
    cases hmembers
  · intro hadmits
    exact ⟨_, value_compute_of_edge_le seed rounds hadmits.count_pos hadmits.edge_succ_le hfits⟩

/-- A committee past the count that is not refused has no members. -/
theorem value_compute_past_count (seed : Seed) (rounds : UInt8)
    (hfits : indices.size ≤ maxListSize) (hadmits : Admits indices.size index count)
    (hpast : count ≤ index) :
    (compute indices seed index count rounds).value = .ok #[] := by
  rcases hadmits.edge_eq hpast with ⟨hstart, hstop⟩
  rw [value_compute_of_edge_le seed rounds hadmits.count_pos hadmits.edge_succ_le hfits, hstart,
    hstop, Array.extract_eq_empty_of_le (Nat.min_le_left _ _)]

/-- The bounds of a slice are given, and the committee of a list that can be shuffled is cut, just
if the index is below the count or the list is so short that the slices from the count up to the
index do not take an entry.  In the second case the slice is empty and stands at the end of the
list; it does not occur if there are no more committees than entries. -/
theorem compute_admits (size index count : Nat) :
    ((∃ edges, bounds size index count = .ok edges) ↔
      index < count ∨ size * (index + 1 - count) < count) ∧
    (count ≤ index → size * (index + 1 - count) < count →
      bounds size index count = .ok (size, size)) ∧
    (count ≤ size →
      ((∃ edges, bounds size index count = .ok edges) ↔ 0 < count ∧ index < count)) ∧
    ∀ (indices : Array ValidatorIndex) (seed : Seed) (rounds : UInt8),
      indices.size = size → size ≤ 2 ^ 40 →
      ((∃ members, (compute indices seed index count rounds).value = .ok members) ↔
        ∃ edges, bounds size index count = .ok edges) ∧
      (count ≤ index → ∀ members,
        (compute indices seed index count rounds).value = .ok members → members = #[]) := by
  refine ⟨bounds_eq_ok_iff_admits, ?_, ?_, ?_⟩
  · intro hpast hshort
    have hadmits : Admits size index count := .inr hshort
    rcases hadmits.edge_eq hpast with ⟨hstart, hstop⟩
    rw [bounds_of_edge_le hadmits.count_pos hstop.le, hstart, hstop]
  · intro hmany
    rw [bounds_eq_ok_iff_admits, admits_iff_lt hmany]
    exact ⟨fun hindex => ⟨Nat.zero_lt_of_lt hindex, hindex⟩, And.right⟩
  · rintro indices seed rounds rfl hfits
    rw [← maxListSize_eq_two_pow] at hfits
    have hcut : (∃ members, (compute indices seed index count rounds).value = .ok members) ↔
        Admits indices.size index count := value_compute_eq_ok_iff_admits seed rounds hfits
    refine ⟨hcut.trans bounds_eq_ok_iff_admits.symm, ?_⟩
    intro hpast members hmembers
    have hempty := value_compute_past_count seed rounds hfits (hcut.1 ⟨members, hmembers⟩) hpast
    exact Except.ok.inj (hmembers.symm.trans hempty)

/-- Three validators in five committees: the committee after the last one has nobody in it, and the
one after that is refused. -/
theorem compute_admits_three :
    bounds 3 5 5 = .ok (3, 3) ∧ (¬ ∃ edges, bounds 3 6 5 = .ok edges) ∧
      (∃ members, (compute #[7, 7, 9] zeroHash 5 5 1).value = .ok members ∧ members = #[]) ∧
      ¬ ∃ members, (compute #[7, 7, 9] zeroHash 6 5 1).value = .ok members := by
  rcases compute_admits 3 5 5 with ⟨hslice, hempty, _, hcompute⟩
  rcases compute_admits 3 6 5 with ⟨hslice', _, _, hcompute'⟩
  rcases hcompute #[7, 7, 9] zeroHash 1 rfl (by decide) with ⟨hcut, hnobody⟩
  rcases hcompute' #[7, 7, 9] zeroHash 1 rfl (by decide) with ⟨hcut', _⟩
  have hrefused : ¬ ∃ edges, bounds 3 6 5 = .ok edges := mt hslice'.1 (by decide)
  rcases hcut.2 (hslice.2 (by decide)) with ⟨members, hmembers⟩
  exact ⟨hempty (by decide) (by decide), hrefused,
    ⟨members, hmembers, hnobody (by decide) members hmembers⟩, mt hcut'.1 hrefused⟩

/-- Two validators in four committees: the index after the last one is not refused, and an empty
committee is cut for it. -/
theorem compute_admits_past_count :
    bounds 2 4 4 = .ok (2, 2) ∧ (compute #[7, 9] zeroHash 4 4 1).value = .ok #[] ∧
      ¬ ∀ size index count : Nat,
        (∃ edges, bounds size index count = .ok edges) ↔ 0 < count ∧ index < count := by
  have hslice : bounds 2 4 4 = .ok (2, 2) := rfl
  refine ⟨hslice, value_compute_past_count zeroHash 1 (by decide) (.inr (by decide)) (by decide), ?_⟩
  intro hbelow
  exact absurd ((hbelow 2 4 4).1 ⟨_, hslice⟩).2 (by decide)

end Committee

end BeaconDuties
