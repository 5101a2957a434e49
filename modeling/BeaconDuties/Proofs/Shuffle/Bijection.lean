import BeaconDuties.Shuffle.Basic
import Mathlib

/-!
# Bijection — single positions are shuffled one to one

A round pairs each position with its reflection, and both members of a pair ask the bit of the
larger one.  They therefore take the same decision, and a second pass of the same round undoes the
first.  This file carries that from one round to all of them:

* `Shuffle.reflect_reflect`, `Shuffle.swapOrNot_swapOrNot` — a reflection and a round undo
  themselves, for any pivot inside the list and any bits;
* `Shuffle.roundPerm`, `Shuffle.positionPerm` — one round and all rounds of a seed, as permutations
  of the positions;
* `Shuffle.shuffledIndex_eq_ok` — a position of a list that is not too long is answered by
  `Shuffle.positionPerm`;
* `Shuffle.shuffledIndex_bijective` — the positions that are answered, and that the answers are a
  permutation, which a single round makes its own inverse.
-/

namespace BeaconDuties

/-- The longest list, as a power of two. -/
theorem maxListSize_eq_two_pow : maxListSize = 2 ^ 40 := by
  decide

namespace Shuffle

/-! ## Reflection -/

section Reflection

variable {bit : Nat → Bool} {pivot count position : Nat}

theorem reflect_of_le (hpivot : pivot < count) (hle : position ≤ pivot) :
    reflect pivot count position = pivot - position := by
  -- Up to the pivot the sum goes once past the size.
  have hshift : pivot + count - position = pivot - position + count := by omega
  calc
    reflect pivot count position = (pivot - position + count) % count := by
      rw [reflect, hshift]
    _ = (pivot - position) % count := Nat.add_mod_right _ _
    _ = pivot - position := Nat.mod_eq_of_lt (by omega)

theorem reflect_of_lt (hlt : pivot < position) (hposition : position < count) :
    reflect pivot count position = pivot + count - position :=
  Nat.mod_eq_of_lt (by omega)

theorem reflect_lt (hpivot : pivot < count) : reflect pivot count position < count :=
  Nat.mod_lt _ (by omega)

theorem reflect_reflect (hpivot : pivot < count) (hposition : position < count) :
    reflect pivot count (reflect pivot count position) = position := by
  -- A position and its reflection lie on the same side of the pivot.
  rcases Nat.lt_or_ge pivot position with hlt | hle
  · have hpaired := reflect_of_lt hlt hposition
    rw [hpaired, reflect_of_lt (by omega) (by omega)]
    omega
  · have hpaired := reflect_of_le hpivot hle
    rw [hpaired, reflect_of_le hpivot (by omega)]
    omega

/-! ## One round -/

theorem swapOrNot_eq_reflect (hbit : bit (max position (reflect pivot count position)) = true) :
    swapOrNot bit pivot count position = reflect pivot count position := by
  simp [swapOrNot, hbit]

theorem swapOrNot_eq_self (hbit : bit (max position (reflect pivot count position)) = false) :
    swapOrNot bit pivot count position = position := by
  simp [swapOrNot, hbit]

theorem swapOrNot_lt (hpivot : pivot < count) (hposition : position < count) :
    swapOrNot bit pivot count position < count := by
  cases hbit : bit (max position (reflect pivot count position)) with
  | true => simpa [swapOrNot_eq_reflect hbit] using reflect_lt hpivot
  | false => simpa [swapOrNot_eq_self hbit] using hposition

/-- A round undoes itself, whatever its bits say. -/
theorem swapOrNot_swapOrNot (hpivot : pivot < count) (hposition : position < count) :
    swapOrNot bit pivot count (swapOrNot bit pivot count position) = position := by
  have hback := reflect_reflect hpivot hposition
  cases hbit : bit (max position (reflect pivot count position)) with
  | true =>
    -- The reflection asks the bit of the same larger position, so it moves back.
    have hsame : bit (max (reflect pivot count position)
        (reflect pivot count (reflect pivot count position))) = true := by
      simpa [hback, max_comm] using hbit
    rw [swapOrNot_eq_reflect hbit, swapOrNot_eq_reflect hsame, hback]
  | false =>
    rw [swapOrNot_eq_self hbit, swapOrNot_eq_self hbit]

end Reflection

/-! ## The rounds of a seed -/

variable {seed : Seed} {rounds : UInt8} {count index : Nat}

theorem pivot_lt (seed : Seed) (round : UInt8) (hcount : 0 < count) :
    pivot seed round count < count :=
  Nat.mod_lt _ hcount

/-- Where one round takes a position of a list of `count` entries. -/
def roundTarget (seed : Seed) (count : Nat) (round : UInt8) (position : Fin count) : Fin count :=
  ⟨roundStep seed count position round,
    swapOrNot_lt (pivot_lt seed round position.pos) position.isLt⟩

theorem roundTarget_involutive (seed : Seed) (count : Nat) (round : UInt8) :
    Function.Involutive (roundTarget seed count round) := by
  intro position
  apply Fin.ext
  exact swapOrNot_swapOrNot (pivot_lt seed round position.pos) position.isLt

/-- One round as a permutation of the positions. -/
def roundPerm (seed : Seed) (count : Nat) (round : UInt8) : Equiv.Perm (Fin count) :=
  (roundTarget_involutive seed count round).toPerm

/-- All rounds as a permutation of the positions, the round numbered zero first. -/
def positionPerm (seed : Seed) (count : Nat) (rounds : UInt8) : Equiv.Perm (Fin count) :=
  (roundNumbers rounds).foldl (fun perm round => perm.trans (roundPerm seed count round))
    (Equiv.refl _)

theorem val_foldl_roundPerm (seed : Seed) (count : Nat) (numbers : List UInt8)
    (perm : Equiv.Perm (Fin count)) (position : Fin count) :
    (numbers.foldl (fun perm round => perm.trans (roundPerm seed count round)) perm position).val =
      numbers.foldl (roundStep seed count) (perm position) := by
  -- The rounds so far are in `perm`, so each further one is applied to its answer.
  induction numbers generalizing perm with
  | nil => rfl
  | cons round numbers ih => exact ih (perm.trans (roundPerm seed count round))

theorem val_positionPerm (seed : Seed) (rounds : UInt8) (position : Fin count) :
    (positionPerm seed count rounds position).val =
      (roundNumbers rounds).foldl (roundStep seed count) position :=
  val_foldl_roundPerm seed count (roundNumbers rounds) (Equiv.refl _) position

theorem positionPerm_one (seed : Seed) (count : Nat) :
    positionPerm seed count 1 = roundPerm seed count 0 := rfl

/-! ## Answers -/

theorem checkListSize_of_le {size : Nat} (hfits : size ≤ maxListSize) :
    checkListSize size = .ok () :=
  if_neg (Nat.not_lt.2 hfits)

theorem checkListSize_of_lt {size : Nat} (hlong : maxListSize < size) :
    checkListSize size = .error (.invalidArgument (.listTooLong size)) :=
  if_pos hlong

theorem shuffledIndex_of_le (seed : Seed) (rounds : UInt8) (hindex : count ≤ index) :
    shuffledIndex index count seed rounds = .error (.indexOutOfRange index count) :=
  if_pos hindex

theorem shuffledIndex_eq_ok (seed : Seed) (rounds : UInt8) (hfits : count ≤ maxListSize)
    (position : Fin count) :
    shuffledIndex position count seed rounds = .ok (positionPerm seed count rounds position) := by
  have hinside : ¬ count ≤ position.val := Nat.not_le.2 position.isLt
  rw [shuffledIndex, if_neg hinside, checkListSize_of_le hfits, val_positionPerm]
  rfl

/-- A list that is not too long has exactly its own positions answered, and the answers are a
permutation of them. A single round is its own inverse. -/
theorem shuffledIndex_bijective (count : Nat) (seed : Seed) (rounds : UInt8)
    (hfits : count ≤ 2 ^ 40) :
    (∀ index, (∃ target, shuffledIndex index count seed rounds = .ok target) ↔ index < count) ∧
      ∃ perm : Equiv.Perm (Fin count),
        (∀ position : Fin count,
          shuffledIndex position count seed rounds = .ok (perm position).val) ∧
        (rounds = 1 → ∀ position, perm (perm position) = position) := by
  rw [← maxListSize_eq_two_pow] at hfits
  have hanswer := shuffledIndex_eq_ok seed rounds hfits
  -- A position past the end is refused, and the rounds permute the others.
  refine ⟨?_, positionPerm seed count rounds, hanswer, ?_⟩
  · intro index
    constructor
    · rintro ⟨target, htarget⟩
      by_contra hindex
      rw [shuffledIndex_of_le seed rounds (Nat.not_lt.1 hindex)] at htarget
      cases htarget
    · intro hindex
      exact ⟨_, hanswer ⟨index, hindex⟩⟩
  · rintro rfl position
    rw [positionPerm_one]
    exact roundTarget_involutive seed count 0 position

/-- Four positions and a single round of the zero seed. -/
theorem shuffledIndex_bijective_four :
    4 ≤ 2 ^ 40 ∧
      (∀ index, (∃ target, shuffledIndex index 4 zeroHash 1 = .ok target) ↔ index < 4) ∧
      ∃ perm : Equiv.Perm (Fin 4),
        (∀ position : Fin 4, shuffledIndex position 4 zeroHash 1 = .ok (perm position).val) ∧
        ∀ position, perm (perm position) = position := by
  rcases shuffledIndex_bijective 4 zeroHash 1 (by decide) with ⟨hpositions, perm, hanswer, htwice⟩
  exact ⟨by decide, hpositions, perm, hanswer, htwice rfl⟩

end Shuffle

end BeaconDuties
