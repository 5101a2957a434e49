import BeaconDuties.Proofs.Shuffle.RoundPairs

/-!
# InPlace — a list shuffled in place holds what single positions name

The walk of a round draws a digest only when the larger member of a pair enters a window, and reads
the bits of the pairs in between from the digest it carries.  This file shows that the carried
digest is always the one of the window, so that a walk swaps by the bits a single position asks;
that a walk is then one round for every position; and that the rounds, walked backwards, compose in
the order in which a single position goes through them:

* `Shuffle.CarriesWindow` — what a walk's digest satisfies between two steps;
* `Shuffle.blockAt_eq_source` — the digest in use at a step is that of the window of its pair;
* `Shuffle.getElem?_walkRound`, `Shuffle.getElem?_walkRounds` — one round and all rounds;
* `Shuffle.shuffleInPlace_agrees` — the shuffle in place and the shuffle of a single position.
-/

namespace BeaconDuties

namespace Shuffle

variable {seed : Seed} {round : UInt8} {pivot size step : Nat} {block : Bytes 32}

/-! ## The carried digest -/

/-- The digest a walk brings to a step: any at the first step, and later the one of the window that
holds the larger member of the step before. -/
def CarriesWindow (seed : Seed) (round : UInt8) (pivot size step : Nat) (block : Bytes 32) : Prop :=
  walkStart pivot < step → block = source seed round (larger pivot size (step - 1) / 256)

theorem carriesWindow_walkStart : CarriesWindow seed round pivot size (walkStart pivot) block := by
  intro hlt
  exact (Nat.lt_irrefl _ hlt).elim

/-- A step that enters no window stays in that of the step before. -/
theorem larger_pred_div (hstep : step ∈ walkSteps pivot size)
    (hstays : entersWindow pivot size step = false) :
    walkStart pivot < step ∧ larger pivot size (step - 1) / 256 = larger pivot size step / 256 := by
  have hbounds : walkStart pivot ≤ step ∧ step ≤ (pivot + size) / 2 := mem_walkSteps.1 hstep
  rcases Nat.lt_or_ge pivot step with hlt | hle
  · -- The larger member descends by one, and its lowest byte has not wrapped to 255.
    have hlarger : larger pivot size step = pivot + size - step := larger_of_lt hlt
    have hinside : (pivot + size - step) % 256 ≠ 255 ∧ step ≠ pivot + 1 := by
      simpa [entersWindow, Nat.not_le.2 hlt, hlarger] using hstays
    have hpred : larger pivot size (step - 1) = pivot + size - (step - 1) :=
      larger_of_lt (by omega)
    have hstart : walkStart pivot < step := by
      simp only [walkStart]
      omega
    refine ⟨hstart, ?_⟩
    simp only [hpred, hlarger]
    omega
  · -- The larger member climbs by one, and its lowest byte has not wrapped to zero.
    have hlarger : larger pivot size step = step := larger_of_le hle
    have hinside : step % 256 ≠ 0 ∧ step ≠ walkStart pivot := by
      simpa [entersWindow, hle, hlarger] using hstays
    have hpred : larger pivot size (step - 1) = step - 1 := larger_of_le (by omega)
    refine ⟨by omega, ?_⟩
    simp only [hpred, hlarger]
    omega

theorem blockAt_of_enters (henters : entersWindow pivot size step = true) :
    blockAt seed round pivot size step block =
      source seed round (larger pivot size step / 256) :=
  if_pos henters

theorem blockAt_of_stays (hstays : entersWindow pivot size step = false) :
    blockAt seed round pivot size step block = block := by
  simp [blockAt, hstays]

/-- The digest in use at a step is that of the window of the pair's larger member. -/
theorem blockAt_eq_source (hstep : step ∈ walkSteps pivot size)
    (hcarries : CarriesWindow seed round pivot size step block) :
    blockAt seed round pivot size step block =
      source seed round (larger pivot size step / 256) := by
  cases henters : entersWindow pivot size step with
  | true => exact blockAt_of_enters henters
  | false =>
    rcases larger_pred_div hstep henters with ⟨hlt, hwindow⟩
    rw [blockAt_of_stays henters, hcarries hlt, hwindow]

/-! ## One round -/

variable {α : Type} {items : Array α}

/-- A step that is brought the right digest swaps its pair by the bit of the larger member, and
leaves the right digest to the next one. -/
theorem walkStep_eq (hstep : step ∈ walkSteps pivot size) (state : WalkState α)
    (hcarries : CarriesWindow seed round pivot size step state.block) :
    walkStep seed round pivot size state step =
      ⟨swapPair (positionBit seed round) pivot size state.items step,
        source seed round (larger pivot size step / 256)⟩ := by
  have hblock := blockAt_eq_source hstep hcarries
  cases hbit : positionBit seed round (larger pivot size step) with
  | true =>
    have hwindow : windowBit (source seed round (larger pivot size step / 256))
        (larger pivot size step) = true := hbit
    simp [walkStep, swapPair, hblock, hbit, hwindow]
  | false =>
    have hwindow : windowBit (source seed round (larger pivot size step / 256))
        (larger pivot size step) = false := hbit
    simp [walkStep, swapPair, hblock, hbit, hwindow]

/-- After any number of steps a walk has swapped their pairs and carries the right digest. -/
theorem foldl_walkStep_range' (seed : Seed) (round : UInt8) (items : Array α) (taken : Nat)
    (htaken : walkStart pivot + taken ≤ (pivot + size) / 2 + 1) :
    let steps := List.range' (walkStart pivot) taken
    let state := steps.foldl (walkStep seed round pivot size) ⟨items, zeroHash⟩
    state.items = steps.foldl (swapPair (positionBit seed round) pivot size) items ∧
      CarriesWindow seed round pivot size (walkStart pivot + taken) state.block := by
  induction taken with
  | zero => exact ⟨rfl, carriesWindow_walkStart⟩
  | succ taken ih =>
    rcases ih (by omega) with ⟨hitems, hcarries⟩
    have hstep : walkStart pivot + taken ∈ walkSteps pivot size :=
      mem_walkSteps.2 ⟨Nat.le_add_right _ _, by omega⟩
    simp only [List.range'_1_concat, List.foldl_append, List.foldl_cons, List.foldl_nil]
    -- Whatever digest is carried here, the next step finds the one of this step's window.
    rw [walkStep_eq hstep _ hcarries, hitems]
    exact ⟨rfl, fun _ => rfl⟩

/-- A round's walk swaps every pair by the bit of its larger member. -/
theorem walkRound_eq_foldl_swapPair (seed : Seed) (items : Array α) (round : UInt8)
    (hsome : 0 < items.size) :
    walkRound seed items round =
      (walkSteps (Shuffle.pivot seed round items.size) items.size).foldl
        (swapPair (positionBit seed round) (Shuffle.pivot seed round items.size) items.size)
        items := by
  have hpivot := pivot_lt seed round hsome
  have hlast : walkStart (Shuffle.pivot seed round items.size) ≤
      (Shuffle.pivot seed round items.size + items.size) / 2 + 1 := by
    simp only [walkStart]
    omega
  exact (foldl_walkStep_range' seed round items _ (by omega)).1

theorem size_walkStep (seed : Seed) (round : UInt8) (pivot size : Nat) (state : WalkState α)
    (step : Nat) : (walkStep seed round pivot size state step).items.size = state.items.size := by
  rw [walkStep]
  split <;> simp

theorem size_foldl_walkStep (seed : Seed) (round : UInt8) (pivot size : Nat) (steps : List Nat)
    (state : WalkState α) :
    (steps.foldl (walkStep seed round pivot size) state).items.size = state.items.size := by
  induction steps generalizing state with
  | nil => rfl
  | cons step steps ih =>
    calc
      (steps.foldl (walkStep seed round pivot size)
          (walkStep seed round pivot size state step)).items.size
          = (walkStep seed round pivot size state step).items.size := ih _
      _ = state.items.size := size_walkStep ..

theorem size_walkRound (seed : Seed) (items : Array α) (round : UInt8) :
    (walkRound seed items round).size = items.size :=
  size_foldl_walkStep ..

/-- A round's walk is one round for every position. -/
theorem getElem?_walkRound (seed : Seed) (items : Array α) (round : UInt8) {position : Nat}
    (hposition : position < items.size) :
    (walkRound seed items round)[position]? =
      items[roundStep seed items.size position round]? := by
  have hsome : 0 < items.size := Nat.zero_lt_of_lt hposition
  have hswaps := walkRound_eq_foldl_swapPair seed items round hsome
  have hread := getElem?_foldl_swapPair (positionBit seed round) items (pivot_lt seed round hsome)
    hposition
  simpa [hswaps, roundStep] using hread

/-! ## All rounds -/

/-- Rounds walked backwards are read through in ascending order. -/
theorem getElem?_foldl_walkRound (seed : Seed) (items : Array α) (numbers : List UInt8) :
    (numbers.reverse.foldl (walkRound seed) items).size = items.size ∧
      ∀ position < items.size, (numbers.reverse.foldl (walkRound seed) items)[position]? =
        items[numbers.foldl (roundStep seed items.size) position]? := by
  induction numbers with
  | nil => exact ⟨rfl, fun _ _ => rfl⟩
  | cons round numbers ih =>
    rcases ih with ⟨hsize, hread⟩
    rw [List.reverse_cons, List.foldl_append]
    refine ⟨?_, ?_⟩
    · simpa [size_walkRound] using hsize
    · intro position hposition
      have hnext : roundStep seed items.size position round < items.size :=
        swapOrNot_lt (pivot_lt seed round (Nat.zero_lt_of_lt hposition)) hposition
      have hlast : position < (numbers.reverse.foldl (walkRound seed) items).size := by
        omega
      -- The walk of this round comes last, so a position goes through this round first.
      calc
        (walkRound seed (numbers.reverse.foldl (walkRound seed) items) round)[position]?
            = (numbers.reverse.foldl (walkRound seed) items)[
                roundStep seed items.size position round]? := by
              rw [getElem?_walkRound seed _ round hlast, hsize]
        _ = items[numbers.foldl (roundStep seed items.size)
                (roundStep seed items.size position round)]? := hread _ hnext

theorem size_walkRounds (seed : Seed) (items : Array α) (rounds : UInt8) :
    (walkRounds seed items rounds).size = items.size :=
  (getElem?_foldl_walkRound seed items (roundNumbers rounds)).1

/-- The shuffled list holds at a position the entry that the position permutation names. -/
theorem getElem?_walkRounds (seed : Seed) (items : Array α) (rounds : UInt8)
    (position : Fin items.size) :
    (walkRounds seed items rounds)[position.val]? =
      some items[positionPerm seed items.size rounds position] := by
  have hread := (getElem?_foldl_walkRound seed items (roundNumbers rounds)).2 position position.isLt
  calc
    (walkRounds seed items rounds)[position.val]?
        = items[(positionPerm seed items.size rounds position).val]? := by
          rw [val_positionPerm]
          exact hread
    _ = some items[positionPerm seed items.size rounds position] := Array.getElem?_eq_getElem _

/-- A shuffle gives every entry a place, as often as it occurs. -/
theorem walkRounds_perm (seed : Seed) (items : Array α) (rounds : UInt8) :
    (walkRounds seed items rounds).toList.Perm items.toList := by
  -- Both lists are read position by position, one of them through a permutation.
  have hshuffled : (walkRounds seed items rounds).toList =
      List.ofFn ((fun position : Fin items.size => items[position]) ∘
        positionPerm seed items.size rounds) := by
    apply List.ext_getElem?
    intro position
    rw [Array.getElem?_toList, List.getElem?_ofFn]
    split
    · rename_i hposition
      exact getElem?_walkRounds seed items rounds ⟨position, hposition⟩
    · rename_i hposition
      have hsize := size_walkRounds seed items rounds
      exact Array.getElem?_eq_none (by omega)
  have hitems : items.toList = List.ofFn fun position : Fin items.size => items[position] := by
    apply List.ext_getElem
    · simp
    · intro position _ _
      simp
  rw [hshuffled, hitems]
  exact Equiv.Perm.ofFn_comp_perm _ _

theorem shuffleInPlace_of_le (seed : Seed) (rounds : UInt8) (hfits : items.size ≤ maxListSize) :
    shuffleInPlace items seed rounds = (.ok (), walkRounds seed items rounds) := by
  by_cases hempty : items.isEmpty
  · have hnone : items = #[] := Array.isEmpty_iff.1 hempty
    subst hnone
    have hwalked : walkRounds seed #[] rounds = (#[] : Array α) :=
      Array.eq_empty_of_size_eq_zero (size_walkRounds seed #[] rounds)
    simp [shuffleInPlace, hwalked]
  · simp [shuffleInPlace, hempty, checkListSize_of_le hfits]

theorem shuffleInPlace_of_lt (seed : Seed) (rounds : UInt8) (hlong : maxListSize < items.size) :
    shuffleInPlace items seed rounds =
      (.error (.invalidArgument (.listTooLong items.size)), items) := by
  have hempty : ¬ items.isEmpty := by
    intro hempty
    have hnone : items.size = 0 := by simpa using hempty
    omega
  simp [shuffleInPlace, hempty, checkListSize_of_lt hlong]

theorem shuffled_of_le (seed : Seed) (rounds : UInt8) (hfits : items.size ≤ maxListSize) :
    shuffled items seed rounds = .ok (walkRounds seed items rounds) := by
  have hwalked := shuffleInPlace_of_le seed rounds hfits
  simp [shuffled, hwalked, Except.map]

theorem shuffled_of_lt (seed : Seed) (rounds : UInt8) (hlong : maxListSize < items.size) :
    shuffled items seed rounds = .error (.invalidArgument (.listTooLong items.size)) := by
  have hrefused := shuffleInPlace_of_lt seed rounds hlong
  simp [shuffled, hrefused, Except.map]

/-- A list of one up to `2 ^ 40` entries is shuffled in place so that each position then holds the
entry at the position that the shuffle of a single position names.  An empty list is left as it is,
and so is a longer list, which is refused. -/
theorem shuffleInPlace_agrees (items : Array α) (seed : Seed) (rounds : UInt8) :
    (items.size = 0 → shuffleInPlace items seed rounds = (.ok (), items)) ∧
    (1 ≤ items.size → items.size ≤ 2 ^ 40 →
      ∃ after, shuffleInPlace items seed rounds = (.ok (), after) ∧ after.size = items.size ∧
        ∀ position < items.size, ∃ target : Fin items.size,
          shuffledIndex position items.size seed rounds = .ok target.val ∧
            after[position]? = some items[target]) ∧
    (2 ^ 40 < items.size →
      shuffleInPlace items seed rounds =
        (.error (.invalidArgument (.listTooLong items.size)), items)) := by
  rw [← maxListSize_eq_two_pow]
  refine ⟨?_, ?_, shuffleInPlace_of_lt seed rounds⟩
  · intro hnone
    rw [Array.eq_empty_of_size_eq_zero hnone]
    rfl
  · intro _ hfits
    refine ⟨_, shuffleInPlace_of_le seed rounds hfits, size_walkRounds .., ?_⟩
    intro position hposition
    exact ⟨positionPerm seed items.size rounds ⟨position, hposition⟩,
      shuffledIndex_eq_ok seed rounds hfits ⟨position, hposition⟩,
      getElem?_walkRounds seed items rounds ⟨position, hposition⟩⟩

/-- Three entries, none, and one entry more than can be shuffled. -/
theorem shuffleInPlace_agrees_sizes :
    (∃ after, shuffleInPlace #[10, 20, 30] zeroHash 1 = (.ok (), after) ∧ after.size = 3 ∧
      ∀ position < 3, ∃ target : Fin 3,
        shuffledIndex position 3 zeroHash 1 = .ok target.val ∧
          after[position]? = some #[10, 20, 30][target]) ∧
    shuffleInPlace (#[] : Array Nat) zeroHash 1 = (.ok (), #[]) ∧
    (shuffleInPlace (Array.replicate (2 ^ 40 + 1) ()) zeroHash 1).2 =
      Array.replicate (2 ^ 40 + 1) () := by
  have hlong : 2 ^ 40 < (Array.replicate (2 ^ 40 + 1) ()).size := by
    rw [Array.size_replicate]
    decide
  refine ⟨?_, ?_, ?_⟩
  · exact (shuffleInPlace_agrees #[10, 20, 30] zeroHash 1).2.1 (by decide) (by decide)
  · exact (shuffleInPlace_agrees #[] zeroHash 1).1 rfl
  · rw [(shuffleInPlace_agrees _ zeroHash 1).2.2 hlong]

end Shuffle

end BeaconDuties
