import BeaconDuties.Proofs.Shuffle.Bijection
import BeaconDuties.Shuffle.PairWalk

/-!
# RoundPairs — the pairs that the walk of a round visits

The walk visits a run of steps, and each step stands for the pair of itself and its partner.  This
file shows that the steps name every pair of the reflection exactly once, so that swapping pair
after pair in place does to each position what a round does to it alone:

* `Shuffle.InPair` — the positions of a step's pair;
* `Shuffle.partner_eq_reflect`, `Shuffle.larger_eq_max` — a pair is a position and its reflection;
* `Shuffle.eq_of_inPair` — no position is in the pairs of two steps;
* `Shuffle.exists_inPair` — every position that a round can move is in the pair of some step;
* `Shuffle.swapPair`, `Shuffle.getElem?_foldl_swapPair` — swapping the pairs one after the other,
  by any bits, is one position-wise round.
-/

namespace BeaconDuties

namespace Shuffle

variable {pivot size step other position : Nat}

/-! ## Steps and their partners -/

theorem mem_walkSteps :
    step ∈ walkSteps pivot size ↔ walkStart pivot ≤ step ∧ step ≤ (pivot + size) / 2 := by
  rw [walkSteps, List.mem_range'_1]
  omega

theorem nodup_walkSteps (pivot size : Nat) : (walkSteps pivot size).Nodup :=
  List.nodup_range'

theorem step_lt (hpivot : pivot < size) (hstep : step ∈ walkSteps pivot size) : step < size := by
  have hlast := (mem_walkSteps.1 hstep).2
  omega

theorem partner_of_le (hle : step ≤ pivot) : partner pivot size step = pivot - step :=
  if_pos hle

theorem partner_of_lt (hlt : pivot < step) : partner pivot size step = pivot + size - step :=
  if_neg (Nat.not_le.2 hlt)

theorem larger_of_le (hle : step ≤ pivot) : larger pivot size step = step :=
  if_pos hle

theorem larger_of_lt (hlt : pivot < step) : larger pivot size step = pivot + size - step := by
  simp [larger, partner_of_lt hlt, Nat.not_le.2 hlt]

theorem partner_eq_reflect (hpivot : pivot < size) (hstep : step ∈ walkSteps pivot size) :
    partner pivot size step = reflect pivot size step := by
  have hsize : step < size := step_lt hpivot hstep
  rcases Nat.lt_or_ge pivot step with hlt | hle
  · simp [partner_of_lt hlt, reflect_of_lt hlt hsize]
  · simp [partner_of_le hle, reflect_of_le hpivot hle]

theorem partner_lt (hpivot : pivot < size) (hstep : step ∈ walkSteps pivot size) :
    partner pivot size step < size := by
  simpa [partner_eq_reflect hpivot hstep] using reflect_lt hpivot

theorem reflect_partner (hpivot : pivot < size) (hstep : step ∈ walkSteps pivot size) :
    reflect pivot size (partner pivot size step) = step := by
  have hback := reflect_reflect hpivot (step_lt hpivot hstep)
  simpa [partner_eq_reflect hpivot hstep] using hback

theorem larger_eq_max (hstep : step ∈ walkSteps pivot size) :
    larger pivot size step = max step (partner pivot size step) := by
  have hbounds : (pivot + 2) / 2 ≤ step ∧ step ≤ (pivot + size) / 2 := mem_walkSteps.1 hstep
  rcases Nat.lt_or_ge pivot step with hlt | hle
  · -- Up to the second axis the step is behind its partner.
    have hbehind : step ≤ pivot + size - step := by omega
    simp [larger_of_lt hlt, partner_of_lt hlt, hbehind]
  · -- Past half the pivot it is ahead of it.
    have hahead : pivot - step ≤ step := by omega
    simp [larger_of_le hle, partner_of_le hle, hahead]

/-! ## Pairs -/

/-- Whether a position is in the pair of a step. -/
def InPair (pivot size step position : Nat) : Prop :=
  position = step ∨ position = partner pivot size step

theorem InPair.reflect (hpivot : pivot < size) (hstep : step ∈ walkSteps pivot size)
    (hin : InPair pivot size step position) :
    InPair pivot size step (reflect pivot size position) := by
  rcases hin with rfl | rfl
  · exact .inr (partner_eq_reflect hpivot hstep).symm
  · exact .inl (reflect_partner hpivot hstep)

/-- Both members of a pair ask the bit of the larger one. -/
theorem InPair.max_reflect (hpivot : pivot < size) (hstep : step ∈ walkSteps pivot size)
    (hin : InPair pivot size step position) :
    max position (Shuffle.reflect pivot size position) = larger pivot size step := by
  rcases hin with rfl | rfl
  · simp [larger_eq_max hstep, partner_eq_reflect hpivot hstep]
  · simp [larger_eq_max hstep, reflect_partner hpivot hstep, max_comm]

/-- A round moves a position inside its pair. -/
theorem InPair.swapOrNot (bit : Nat → Bool) (hpivot : pivot < size)
    (hstep : step ∈ walkSteps pivot size) (hin : InPair pivot size step position) :
    InPair pivot size step (swapOrNot bit pivot size position) := by
  cases hbit : bit (max position (Shuffle.reflect pivot size position)) with
  | true => simpa [swapOrNot_eq_reflect hbit] using hin.reflect hpivot hstep
  | false => simpa [swapOrNot_eq_self hbit] using hin

/-- The pairs of two different steps share no position. -/
theorem eq_of_inPair (hstep : step ∈ walkSteps pivot size) (hother : other ∈ walkSteps pivot size)
    (hin : InPair pivot size step position) (hin' : InPair pivot size other position) :
    step = other := by
  have hbounds : (pivot + 2) / 2 ≤ step ∧ step ≤ (pivot + size) / 2 := mem_walkSteps.1 hstep
  have hbounds' : (pivot + 2) / 2 ≤ other ∧ other ≤ (pivot + size) / 2 := mem_walkSteps.1 hother
  have hmember : position = step ∨ position = partner pivot size step := hin
  have hmember' : position = other ∨ position = partner pivot size other := hin'
  rcases Nat.lt_or_ge pivot step with hlt | hle
  · have hpartner : partner pivot size step = pivot + size - step := partner_of_lt hlt
    rcases Nat.lt_or_ge pivot other with hlt' | hle'
    · -- Both partners lie above every step, or are the last step themselves.
      have hpartner' : partner pivot size other = pivot + size - other := partner_of_lt hlt'
      omega
    · -- One pair lies past the pivot, the other up to it.
      have hpartner' : partner pivot size other = pivot - other := partner_of_le hle'
      omega
  · have hpartner : partner pivot size step = pivot - step := partner_of_le hle
    rcases Nat.lt_or_ge pivot other with hlt' | hle'
    · have hpartner' : partner pivot size other = pivot + size - other := partner_of_lt hlt'
      omega
    · -- Both partners lie below every step.
      have hpartner' : partner pivot size other = pivot - other := partner_of_le hle'
      omega

/-- The walk leaves out only positions that are their own reflection. -/
theorem exists_inPair (hpivot : pivot < size) (hposition : position < size)
    (hmoved : reflect pivot size position ≠ position) :
    ∃ step ∈ walkSteps pivot size, InPair pivot size step position := by
  have hback := reflect_reflect hpivot hposition
  have hlt : reflect pivot size position < size := reflect_lt hpivot
  -- One of the two positions is a step, and the other is its partner.
  have hsteps : position ∈ walkSteps pivot size ∨
      reflect pivot size position ∈ walkSteps pivot size := by
    simp only [mem_walkSteps, walkStart]
    rcases Nat.lt_or_ge pivot position with hhigh | hlow
    · have hpaired := reflect_of_lt hhigh hposition
      omega
    · have hpaired := reflect_of_le hpivot hlow
      omega
  rcases hsteps with hstep | hstep
  · exact ⟨position, hstep, .inl rfl⟩
  · refine ⟨reflect pivot size position, hstep, .inr ?_⟩
    simpa [hback] using (partner_eq_reflect hpivot hstep).symm

/-! ## Swapping pairs -/

variable {α : Type}

/-- The members of a step's pair change places if the bit of the larger one is set. -/
def swapPair (bit : Nat → Bool) (pivot size : Nat) (items : Array α) (step : Nat) : Array α :=
  if bit (larger pivot size step) then items.swapIfInBounds step (partner pivot size step)
  else items

variable {bit : Nat → Bool} {items : Array α}

theorem size_swapPair (bit : Nat → Bool) (pivot size : Nat) (items : Array α) (step : Nat) :
    (swapPair bit pivot size items step).size = items.size := by
  by_cases hbit : bit (larger pivot size step) <;> simp [swapPair, hbit]

/-- Outside the pair of its step a swap changes nothing. -/
theorem getElem?_swapPair_of_not_inPair (hout : ¬ InPair pivot size step position) :
    (swapPair bit pivot size items step)[position]? = items[position]? := by
  rcases not_or.1 hout with ⟨hstep, hpartner⟩
  rw [swapPair]
  split
  · grind
  · rfl

/-- Inside the pair of its step a swap is one round. -/
theorem getElem?_swapPair_of_inPair (hpivot : pivot < items.size)
    (hstep : step ∈ walkSteps pivot items.size) (hin : InPair pivot items.size step position) :
    (swapPair bit pivot items.size items step)[position]? =
      items[swapOrNot bit pivot items.size position]? := by
  have hlarger := hin.max_reflect hpivot hstep
  have hlt := step_lt hpivot hstep
  have hpartner := partner_lt hpivot hstep
  cases hbit : bit (larger pivot items.size step) with
  | true =>
    have hmoved : swapOrNot bit pivot items.size position = reflect pivot items.size position :=
      swapOrNot_eq_reflect (by simpa [hlarger] using hbit)
    simp only [swapPair, hbit, if_true, hmoved]
    rcases hin with rfl | rfl
    · have hpaired := partner_eq_reflect hpivot hstep
      grind
    · have hpaired := reflect_partner hpivot hstep
      grind
  | false =>
    have hstay : swapOrNot bit pivot items.size position = position :=
      swapOrNot_eq_self (by simpa [hlarger] using hbit)
    simp [swapPair, hbit, hstay]

/-- Swapping the pairs of several steps leaves every position outside them alone and takes every
position inside them through one round. -/
theorem getElem?_foldl_swapPair_steps (bit : Nat → Bool) (position : Nat) (hpivot : pivot < size)
    (steps : List Nat) (hsteps : ∀ step ∈ steps, step ∈ walkSteps pivot size)
    (hnodup : steps.Nodup) (items : Array α) (hsize : items.size = size) :
    ((∀ step ∈ steps, ¬ InPair pivot size step position) →
      (steps.foldl (swapPair bit pivot size) items)[position]? = items[position]?) ∧
    ((∃ step ∈ steps, InPair pivot size step position) →
      (steps.foldl (swapPair bit pivot size) items)[position]? =
        items[swapOrNot bit pivot size position]?) := by
  induction steps generalizing items with
  | nil => simp
  | cons step steps ih =>
    subst hsize
    rcases List.nodup_cons.1 hnodup with ⟨hfresh, hnodup⟩
    have hstep := hsteps step (List.mem_cons_self ..)
    have hrest := fun other hmem => hsteps other (List.mem_cons_of_mem step hmem)
    -- A position in the pair of a later step is not in the pair of this one.
    have hapart : ∀ {position}, ∀ other ∈ steps, InPair pivot items.size other position →
        ¬ InPair pivot items.size step position := by
      intro position other hmem hin hin'
      exact hfresh (eq_of_inPair hstep (hrest other hmem) hin' hin ▸ hmem)
    rcases ih hrest hnodup (swapPair bit pivot items.size items step) (size_swapPair ..) with
      ⟨hout, hin⟩
    rw [List.foldl_cons]
    constructor
    · intro hnone
      rw [hout fun other hmem => hnone other (List.mem_cons_of_mem step hmem)]
      exact getElem?_swapPair_of_not_inPair (hnone step (List.mem_cons_self ..))
    · rintro ⟨other, hmem, hpair⟩
      rcases List.mem_cons.1 hmem with rfl | hmem
      · rw [hout fun later hlater hpair' => hapart later hlater hpair' hpair]
        exact getElem?_swapPair_of_inPair hpivot hstep hpair
      · rw [hin ⟨other, hmem, hpair⟩]
        have hmoved := hpair.swapOrNot bit hpivot (hrest other hmem)
        exact getElem?_swapPair_of_not_inPair (hapart other hmem hmoved)

/-- Swapping all pairs of a round in place is one round for every position. -/
theorem getElem?_foldl_swapPair (bit : Nat → Bool) (items : Array α) (hpivot : pivot < items.size)
    (hposition : position < items.size) :
    ((walkSteps pivot items.size).foldl (swapPair bit pivot items.size) items)[position]? =
      items[swapOrNot bit pivot items.size position]? := by
  rcases getElem?_foldl_swapPair_steps bit position hpivot (walkSteps pivot items.size)
    (fun _ hmem => hmem) (nodup_walkSteps ..) items rfl with ⟨hout, hin⟩
  by_cases hmoved : reflect pivot items.size position = position
  · -- A position on an axis stays, whether the walk visits it or not.
    have hstay : swapOrNot bit pivot items.size position = position := by
      simp [swapOrNot, hmoved]
    by_cases hpair : ∃ step ∈ walkSteps pivot items.size, InPair pivot items.size step position
    · exact hin hpair
    · rw [hstay]
      exact hout fun step hmem hpair' => hpair ⟨step, hmem, hpair'⟩
  · exact hin (exists_inPair hpivot hposition hmoved)

end Shuffle

end BeaconDuties
