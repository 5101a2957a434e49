import BeaconDuties.Proofs.Shuffle.InPlace

/-!
# PairCover — the walk of a round deals with each pair once

From just past half the pivot up to half of pivot plus size, one formula pairs the steps up to the
pivot and another one those beyond it.  Both give the reflection of the step, no position is met
twice, and none is left out but those that are their own reflection.  With an odd pivot no position
lies on the first axis, and the walk starts at the larger one of the two beside it.

So each pair may be decided about on its own, in whatever way.  Since a pair is known by its larger
member, a decision about pairs is one about positions, and the walk in place does what single
positions do that ask their larger member.

* `Shuffle.larger_injOn` — no two pairs have the same larger member;
* `Shuffle.exists_bit` — every decision about pairs is one about their larger members;
* `Shuffle.walk_covers_pairs` — the pairs of a round, and what swapping them does.
-/

namespace BeaconDuties

namespace Shuffle

variable {pivot size : Nat}

/-! ## Decisions about pairs -/

theorem inPair_larger (pivot size step : Nat) : InPair pivot size step (larger pivot size step) := by
  rw [larger]
  split
  · exact .inl rfl
  · exact .inr rfl

theorem larger_injOn (pivot size : Nat) :
    Set.InjOn (larger pivot size) {step | step ∈ walkSteps pivot size} := by
  intro step hstep other hother hsame
  have hpair := inPair_larger pivot size other
  rw [← hsame] at hpair
  exact eq_of_inPair hstep hother (inPair_larger pivot size step) hpair

/-- Whatever is decided about each pair, there are bits by which the larger members decide so. -/
theorem exists_bit (pivot size : Nat) (swaps : Nat → Bool) :
    ∃ bit : Nat → Bool, ∀ step ∈ walkSteps pivot size, bit (larger pivot size step) = swaps step := by
  refine ⟨fun position => decide (∃ step ∈ walkSteps pivot size,
    larger pivot size step = position ∧ swaps step), ?_⟩
  intro step hstep
  rw [Bool.eq_iff_iff, decide_eq_true_iff]
  constructor
  · rintro ⟨other, hother, hsame, hswaps⟩
    rwa [← larger_injOn pivot size hother hstep hsame]
  · intro hswaps
    exact ⟨step, hstep, rfl, hswaps⟩

/-! ## The round in place -/

theorem size_foldl_swapPair {α : Type} (bit : Nat → Bool) (pivot size : Nat) (steps : List Nat)
    (items : Array α) : (steps.foldl (swapPair bit pivot size) items).size = items.size := by
  induction steps generalizing items with
  | nil => rfl
  | cons step steps ih => rw [List.foldl_cons, ih, size_swapPair]

/-- The steps of a round run from half of the pivot plus two to half of the pivot plus the size, each
once.  A step and its partner lie inside the list and are reflections of each other, no position is
in the pairs of two steps, and each position that is not its own reflection is in the pair of some
step.  Whatever is decided about the pairs can be decided by bits of their larger members, and for
all such bits the walk that swaps pair after pair leaves at each position the entry from where a
round takes that position.  The walk of a shuffle does so with the bits of its seed. -/
theorem walk_covers_pairs (hpivot : pivot < size) :
    ((walkSteps pivot size).Nodup ∧ ∀ step, step ∈ walkSteps pivot size ↔
      (pivot + 2) / 2 ≤ step ∧ step ≤ (pivot + size) / 2) ∧
    (∀ step ∈ walkSteps pivot size,
      let paired := if step ≤ pivot then pivot - step else pivot + size - step
      partner pivot size step = paired ∧ step < size ∧ paired < size ∧
        paired = (pivot + size - step) % size ∧ step = (pivot + size - paired) % size) ∧
    (∀ step ∈ walkSteps pivot size, ∀ other ∈ walkSteps pivot size, ∀ position,
      InPair pivot size step position → InPair pivot size other position → step = other) ∧
    (∀ position < size, position ≠ (pivot + size - position) % size →
      ∃ step ∈ walkSteps pivot size, InPair pivot size step position) ∧
    (∀ swaps : Nat → Bool, ∃ bit : Nat → Bool, ∀ step ∈ walkSteps pivot size,
      bit (larger pivot size step) = swaps step) ∧
    ∀ {α : Type} (items : Array α), items.size = size →
      (∀ bit : Nat → Bool,
        let walked := (walkSteps pivot size).foldl (swapPair bit pivot size) items
        walked.size = size ∧ ∀ position < size,
          walked[position]? = items[swapOrNot bit pivot size position]?) ∧
      ∀ (seed : Seed) (round : UInt8), Shuffle.pivot seed round size = pivot →
        walkRound seed items round =
          (walkSteps pivot size).foldl (swapPair (positionBit seed round) pivot size) items := by
  refine ⟨⟨nodup_walkSteps pivot size, fun _ => mem_walkSteps⟩, ?_, ?_, ?_, exists_bit pivot size,
    ?_⟩
  · intro step hstep paired
    have hpartner : partner pivot size step = paired := rfl
    rw [← hpartner]
    exact ⟨rfl, step_lt hpivot hstep, partner_lt hpivot hstep, partner_eq_reflect hpivot hstep,
      (reflect_partner hpivot hstep).symm⟩
  · intro step hstep other hother position hin hin'
    exact eq_of_inPair hstep hother hin hin'
  · intro position hposition hmoved
    exact exists_inPair hpivot hposition hmoved.symm
  · rintro α items rfl
    refine ⟨?_, ?_⟩
    · intro bit walked
      refine ⟨size_foldl_swapPair .., ?_⟩
      intro position hposition
      exact getElem?_foldl_swapPair bit items hpivot hposition
    · rintro seed round rfl
      exact walkRound_eq_foldl_swapPair seed items round (Nat.zero_lt_of_lt hpivot)

/-- Seven positions around the pivot two: the step beyond the pivot stands for the pair of four and
five, and swapping that pair alone puts the entry of five at four.  A list of one entry has no pair
at all. -/
theorem walk_covers_pairs_seven :
    2 < 7 ∧ walkSteps 2 7 = [2, 3, 4] ∧ InPair 2 7 4 5 ∧
      (4 = (2 + 7 - 5) % 7 ∧ 5 < 7 ∧ ∀ other ∈ walkSteps 2 7, InPair 2 7 other 5 → other = 4) ∧
      (5 ≠ (2 + 7 - 5) % 7 ∧ ∃ step ∈ walkSteps 2 7, InPair 2 7 step 5) ∧
      ((walkSteps 2 7).foldl (swapPair (fun position => position == 5) 2 7)
        #[10, 11, 12, 13, 14, 15, 16])[4]? = some 15 ∧
      Shuffle.pivot zeroHash 0 1 = 0 ∧ walkSteps 0 1 = [] ∧
      walkRound zeroHash #[10] 0 =
        (walkSteps 0 1).foldl (swapPair (positionBit zeroHash 0) 0 1) #[10] := by
  have hstep : 4 ∈ walkSteps 2 7 := by decide
  have hpair : InPair 2 7 4 5 := .inr rfl
  have hnone : Shuffle.pivot zeroHash 0 1 = 0 := Nat.mod_one _
  rcases walk_covers_pairs (show 2 < 7 by decide) with ⟨_, hpartner, hapart, hcover, _, hswaps⟩
  rcases hpartner 4 hstep with ⟨_, _, hinside, _, hback⟩
  have hentry := ((hswaps #[10, 11, 12, 13, 14, 15, 16] rfl).1 fun position => position == 5).2 4
    (by decide)
  rcases walk_covers_pairs (show 0 < 1 by decide) with ⟨_, _, _, _, _, hsingle⟩
  exact ⟨by decide, rfl, hpair,
    ⟨hback, hinside, fun other hother hin => (hapart 4 hstep other hother 5 hpair hin).symm⟩,
    ⟨by decide, hcover 5 (by decide) (by decide)⟩, hentry, hnone, rfl,
    (hsingle #[10] rfl).2 zeroHash 0 hnone⟩

end Shuffle

end BeaconDuties
