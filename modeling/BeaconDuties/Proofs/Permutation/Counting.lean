import BeaconDuties.Permutation
import Mathlib

/-!
# Counting — a list without repetitions that is long enough misses nothing

The check of a permutation marks each target in a table and refuses targets outside the table and
targets that are marked already.  That no position is missing is not looked at: as many different
targets as there are positions leave none out.

* `nodup_and_perm_iff` — a list is covered once by as many different members of it;
* `nodup_and_forall_ne_iff` — members read in order differ from the ones before;
* `Permutation.visit_eq_true_iff` — the check refuses what is marked, outside or repeated;
* `isPermutation_eq_true_iff` — what passes is an arrangement of the positions;
* `isPermutation_iff_bijective` — what passes is a bijection, which takes each value once.
-/

namespace BeaconDuties

/-- Members cover a list without repetitions just if there are as many of them as the list has
entries, all of them in the list and no two the same. -/
theorem nodup_and_perm_iff {α : Type} {members items : List α} :
    items.Nodup ∧ members.Perm items ↔
      members.length = items.length ∧ members ⊆ items ∧ members.Nodup := by
  constructor
  · rintro ⟨hnodup, hperm⟩
    exact ⟨hperm.length_eq, hperm.subset, hperm.nodup_iff.2 hnodup⟩
  · rintro ⟨hlength, hsubset, hnodup⟩
    have hperm : members.Perm items :=
      (List.subperm_of_subset hnodup hsubset).perm_of_length_le hlength.ge
    exact ⟨hperm.nodup_iff.1 hnodup, hperm⟩

/-- A member is not repeated later just if all later ones differ from it. -/
theorem nodup_and_forall_ne_iff {α : Type} {first : α} {rest : List α} {P : α → Prop} :
    (rest.Nodup ∧ ∀ later ∈ rest, first ≠ later ∧ P later) ↔
      (first :: rest).Nodup ∧ ∀ later ∈ rest, P later := by
  rw [List.nodup_cons]
  constructor
  · rintro ⟨hnodup, hlater⟩
    have hfresh : first ∉ rest := fun hmem => (hlater first hmem).1 rfl
    exact ⟨⟨hfresh, hnodup⟩, fun later hmem => (hlater later hmem).2⟩
  · rintro ⟨⟨hfresh, hnodup⟩, hlater⟩
    refine ⟨hnodup, fun later hmem => ⟨?_, hlater later hmem⟩⟩
    rintro rfl
    exact hfresh hmem

namespace Permutation

/-! ## The table -/

/-- Marking a position leaves the other unmarked ones. -/
theorem getElem?_mark {seen : Array Bool} {target other : Nat} (hinside : target < seen.size) :
    (seen.set target true)[other]? = some false ↔ target ≠ other ∧ seen[other]? = some false := by
  rw [Array.getElem?_set hinside]
  split_ifs with hsame
  · simp [hsame]
  · simp [hsame]

/-- Targets pass just if they are all different and none of them is marked or outside the table. -/
theorem visit_eq_true_iff {seen : Array Bool} {targets : List Nat} :
    visit seen targets = true ↔
      targets.Nodup ∧ ∀ target ∈ targets, seen[target]? = some false := by
  fun_induction visit seen targets with
  | case1 => simp
  | case2 seen target rest hinside hmarked =>
    have hseen : seen[target]? = some true := by rw [Array.getElem?_eq_getElem hinside, hmarked]
    simp [hseen]
  | case3 seen target rest hinside hunmarked ih =>
    have hseen : seen[target]? = some false := by
      rw [Array.getElem?_eq_getElem hinside, Bool.eq_false_iff.2 hunmarked]
    -- Later targets must not meet this mark, that is they must differ from this target.
    simp only [ih, getElem?_mark, List.forall_mem_cons, hseen, true_and]
    exact nodup_and_forall_ne_iff
  | case4 seen target rest houtside =>
    have hseen : seen[target]? = none := Array.getElem?_eq_none (Nat.not_lt.1 houtside)
    simp [hseen]

end Permutation

/-! ## Maps of positions -/

variable {mapping : List Nat}

theorem isPermutation_eq_true_iff :
    isPermutation mapping = true ↔ mapping.Perm (List.range mapping.length) := by
  have hcover : (List.range mapping.length).Nodup ∧ mapping.Perm (List.range mapping.length) ↔
      mapping.length = (List.range mapping.length).length ∧
        mapping ⊆ List.range mapping.length ∧ mapping.Nodup := nodup_and_perm_iff
  have hpositions : mapping.Perm (List.range mapping.length) ↔
      mapping ⊆ List.range mapping.length ∧ mapping.Nodup := by
    simpa [List.nodup_range] using hcover
  -- In a fresh table the unmarked places are the positions.
  have hfresh (target : Nat) :
      (Array.replicate mapping.length false)[target]? = some false ↔
        target ∈ List.range mapping.length := by
    rw [Array.getElem?_replicate, List.mem_range, ite_eq_left_iff]
    simp
  rw [isPermutation, Permutation.visit_eq_true_iff, hpositions, and_comm]
  simp only [hfresh, List.subset_def]

/-- An arrangement of the positions has each of them once. -/
theorem perm_range_iff_count :
    mapping.Perm (List.range mapping.length) ↔
      ∀ value < mapping.length, mapping.count value = 1 := by
  constructor
  · intro hperm value hvalue
    rw [hperm.count_eq]
    exact List.count_eq_one_of_mem List.nodup_range (List.mem_range.2 hvalue)
  · intro hcount
    -- Every position occurs, and there is no room for anything else.
    have hsubset : List.range mapping.length ⊆ mapping := by
      intro value hvalue
      have honce := hcount value (List.mem_range.1 hvalue)
      exact List.count_pos_iff.1 (honce ▸ Nat.one_pos)
    have hcover := nodup_and_perm_iff.2 ⟨List.length_range, hsubset, List.nodup_range⟩
    exact hcover.2.symm

/-- An arrangement of the positions is the list of values of a permutation. -/
theorem perm_range_iff_bijective :
    mapping.Perm (List.range mapping.length) ↔
      ∃ perm : Equiv.Perm (Fin mapping.length),
        ∀ position, mapping[position] = (perm position).val := by
  constructor
  · intro hperm
    have hnodup : mapping.Nodup := hperm.nodup_iff.2 List.nodup_range
    have hbound (position : Fin mapping.length) : mapping[position] < mapping.length :=
      List.mem_range.1 (hperm.subset (List.getElem_mem position.isLt))
    let target (position : Fin mapping.length) : Fin mapping.length :=
      ⟨mapping[position], hbound position⟩
    have hinjective : Function.Injective target := by
      intro first second hsame
      exact Fin.ext (hnodup.getElem_inj_iff.1 (Fin.mk.inj hsame))
    exact ⟨Equiv.ofBijective target (Finite.injective_iff_bijective.1 hinjective),
      fun position => rfl⟩
  · rintro ⟨perm, hperm⟩
    have hvalues : mapping = List.ofFn fun position => (perm position).val := by
      apply List.ext_getElem (by simp)
      intro position hposition _
      simpa using hperm ⟨position, hposition⟩
    have hrange : List.range mapping.length = List.ofFn fun position : Fin mapping.length =>
        position.val := by
      apply List.ext_getElem (by simp)
      simp
    rw [hrange]
    conv_lhs => rw [hvalues]
    exact Equiv.Perm.ofFn_comp_perm perm fun position => position.val

/-- A list of targets passes the check just if it takes its positions one to one onto themselves,
that is just if every value below its length occurs in it exactly once. -/
theorem isPermutation_iff_bijective (mapping : List Nat) :
    (isPermutation mapping = true ↔
      ∃ perm : Equiv.Perm (Fin mapping.length),
        ∀ position, mapping[position] = (perm position).val) ∧
    (isPermutation mapping = true ↔ ∀ value < mapping.length, mapping.count value = 1) := by
  rw [isPermutation_eq_true_iff]
  exact ⟨perm_range_iff_bijective, perm_range_iff_count⟩

/-- A target that occurs twice leaves another one out, and so does one from outside. -/
example : isPermutation [2, 0, 1] = true ∧ isPermutation [0, 0, 1] = false ∧
    isPermutation [0, 3, 1] = false := by
  decide

end BeaconDuties
