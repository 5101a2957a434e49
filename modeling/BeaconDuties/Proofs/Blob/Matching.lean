import BeaconDuties.Blob
import Mathlib

/-!
# Matching — two checks of sidecars decide one relation

A sidecar says which place its blob has in the block and carries the blob's commitment, so it
belongs to the block if the block has that commitment in that place.  One check looks up the place
that each sidecar says, wherever the sidecar stands.  The other walks through the sidecars and the
commitments side by side and asks that each sidecar says the place it stands in.  For as many
sidecars as commitments, that order is all the second check asks for besides the first one.

* `BlobSidecar.Matches` — the block has a sidecar's commitment in the place it says;
* `BlobSidecar.Fits`, `BlobSidecar.Misfit` — a sidecar in the place it stands in, and what is wrong
  with it there;
* `BlobSidecar.checkListed_eq_ok_iff` — one sidecar after the other matches;
* `BlobSidecar.checkFrom_eq_ok_iff`, `BlobSidecar.checkFrom_eq_error_iff` — all of them fit, or the
  first one that does not is reported;
* `BlobSidecar.checkComplete_agrees` — both checks against each other.
-/

namespace BeaconDuties

namespace BlobSidecar

variable {position start : Nat} {sidecar : BlobSidecar} {sidecars : List BlobSidecar}
  {commitment : KzgCommitment} {commitments : List KzgCommitment} {cause : DutyError}

/-! ## One sidecar -/

/-- The block has the sidecar's commitment in the place that the sidecar says. -/
def Matches (commitments : List KzgCommitment) (sidecar : BlobSidecar) : Prop :=
  commitments[sidecar.index.toNat]? = some sidecar.commitment

/-- A sidecar that stands in a place says that place, and has the commitment that is there. -/
structure Fits (position : Nat) (sidecar : BlobSidecar) (commitment : KzgCommitment) : Prop where
  index : sidecar.index.toNat = position
  commitment : sidecar.commitment = commitment

/-- Why a sidecar does not fit the place it stands in.  Its commitment is blamed only if it says
the right place. -/
inductive Misfit (position : Nat) (sidecar : BlobSidecar) (commitment : KzgCommitment) :
    DutyError → Prop where
  | index (hindex : sidecar.index.toNat ≠ position) :
      Misfit position sidecar commitment
        (.invalidArgument (.sidecarPosition position sidecar.index))
  | commitment (hindex : sidecar.index.toNat = position)
      (hcommitment : sidecar.commitment ≠ commitment) :
      Misfit position sidecar commitment (.invalidArgument (.commitmentMismatch sidecar.index))

theorem Matches.append (hmatches : Matches commitments sidecar) (more : List KzgCommitment) :
    Matches (commitments ++ more) sidecar := by
  have hinside : sidecar.index.toNat < commitments.length :=
    (List.getElem?_eq_some_iff.1 hmatches).1
  rw [Matches, List.getElem?_append_left hinside]
  exact hmatches

/-! ## Sidecars in any order -/

theorem checkListed_eq_ok_iff :
    checkListed commitments sidecars = .ok () ↔
      ∀ sidecar ∈ sidecars, Matches commitments sidecar := by
  fun_induction checkListed commitments sidecars with
  | case1 => simp
  | case2 sidecar rest hnone => simp [Matches, hnone]
  | case3 sidecar rest commitment hsome hdiffers => simp [Matches, hsome, Ne.symm hdiffers]
  | case4 sidecar rest commitment hsome hsame ih =>
    have hmatches : Matches commitments sidecar := by rw [Matches, hsome, not_not.1 hsame]
    rw [ih, List.forall_mem_cons, and_iff_right hmatches]

/-! ## Sidecars in the order of the block -/

/-- Every sidecar fits where it stands, the first one in a given position. -/
def AllFit (start : Nat) (sidecars : List BlobSidecar) (commitments : List KzgCommitment) : Prop :=
  ∀ place sidecar commitment, sidecars[place]? = some sidecar →
    commitments[place]? = some commitment → Fits (start + place) sidecar commitment

/-- Some sidecar does not fit where it stands while all before it do, and this is what is wrong
with it. -/
def FirstMisfit (start : Nat) (sidecars : List BlobSidecar) (commitments : List KzgCommitment)
    (cause : DutyError) : Prop :=
  ∃ place sidecar commitment, sidecars[place]? = some sidecar ∧
    commitments[place]? = some commitment ∧ Misfit (start + place) sidecar commitment cause ∧
    AllFit start (sidecars.take place) commitments

theorem allFit_cons :
    AllFit start (sidecar :: sidecars) (commitment :: commitments) ↔
      Fits start sidecar commitment ∧ AllFit (start + 1) sidecars commitments := by
  constructor
  · intro hall
    refine ⟨hall 0 sidecar commitment rfl rfl, ?_⟩
    intro place later next hlater hnext
    have hfits := hall (place + 1) later next hlater hnext
    rwa [← Nat.add_assoc, Nat.add_right_comm] at hfits
  · rintro ⟨hfirst, hrest⟩ place later next hlater hnext
    cases place with
    | zero =>
      cases hlater
      cases hnext
      exact hfirst
    | succ place =>
      have hfits := hrest place later next hlater hnext
      rwa [Nat.add_right_comm, Nat.add_assoc] at hfits

theorem firstMisfit_cons :
    FirstMisfit start (sidecar :: sidecars) (commitment :: commitments) cause ↔
      Misfit start sidecar commitment cause ∨
        Fits start sidecar commitment ∧ FirstMisfit (start + 1) sidecars commitments cause := by
  constructor
  · rintro ⟨place, later, next, hlater, hnext, hmisfit, hbefore⟩
    cases place with
    | zero =>
      cases hlater
      cases hnext
      exact .inl hmisfit
    | succ place =>
      rw [List.take_succ_cons, allFit_cons] at hbefore
      rw [Nat.add_comm place, ← Nat.add_assoc] at hmisfit
      exact .inr ⟨hbefore.1, place, later, next, hlater, hnext, hmisfit, hbefore.2⟩
  · rintro (hmisfit | ⟨hfits, place, later, next, hlater, hnext, hmisfit, hbefore⟩)
    · refine ⟨0, sidecar, commitment, rfl, rfl, hmisfit, ?_⟩
      simp [AllFit]
    · rw [Nat.add_assoc, Nat.add_comm 1] at hmisfit
      refine ⟨place + 1, later, next, hlater, hnext, hmisfit, ?_⟩
      rw [List.take_succ_cons, allFit_cons]
      exact ⟨hfits, hbefore⟩

/-- Where one of two lists has ended, no place is in both. -/
theorem not_both_of_end
    (hend : ∀ first rest next others,
      sidecars = first :: rest → commitments = next :: others → False)
    {place : Nat} (hsidecar : sidecars[place]? = some sidecar)
    (hcommitment : commitments[place]? = some commitment) : False := by
  cases sidecars with
  | nil => cases hsidecar
  | cons first rest =>
    cases commitments with
    | nil => cases hcommitment
    | cons next others => exact hend first rest next others rfl rfl

theorem checkFrom_eq_ok_iff :
    checkFrom start sidecars commitments = .ok () ↔ AllFit start sidecars commitments := by
  fun_induction checkFrom start sidecars commitments with
  | case1 start sidecar sidecars commitment commitments hindex =>
    rw [allFit_cons]
    exact iff_of_false (by simp) fun hall => hindex hall.1.index
  | case2 start sidecar sidecars commitment commitments hindex hcommitment =>
    rw [allFit_cons]
    exact iff_of_false (by simp) fun hall => hcommitment hall.1.commitment
  | case3 start sidecar sidecars commitment commitments hindex hcommitment ih =>
    rw [ih, allFit_cons, and_iff_right ⟨not_not.1 hindex, not_not.1 hcommitment⟩]
  | case4 sidecars start commitments hend =>
    exact iff_of_true rfl fun place sidecar commitment hsidecar hcommitment =>
      (not_both_of_end hend hsidecar hcommitment).elim

theorem checkFrom_eq_error_iff :
    checkFrom start sidecars commitments = .error cause ↔
      FirstMisfit start sidecars commitments cause := by
  fun_induction checkFrom start sidecars commitments with
  | case1 start sidecar sidecars commitment commitments hindex =>
    rw [firstMisfit_cons]
    constructor
    · rintro ⟨⟩
      exact .inl (.index hindex)
    · rintro (hmisfit | ⟨hfits, _⟩)
      · cases hmisfit with
        | index => rfl
        | commitment hplace => exact absurd hplace hindex
      · exact absurd hfits.index hindex
  | case2 start sidecar sidecars commitment commitments hindex hcommitment =>
    rw [firstMisfit_cons]
    constructor
    · rintro ⟨⟩
      exact .inl (.commitment (not_not.1 hindex) hcommitment)
    · rintro (hmisfit | ⟨hfits, _⟩)
      · cases hmisfit with
        | index hplace => exact absurd hplace hindex
        | commitment => rfl
      · exact absurd hfits.commitment hcommitment
  | case3 start sidecar sidecars commitment commitments hindex hcommitment ih =>
    rw [ih, firstMisfit_cons]
    have hfits : Fits start sidecar commitment := ⟨not_not.1 hindex, not_not.1 hcommitment⟩
    have hnone : ¬ Misfit start sidecar commitment cause := by
      rintro (hplace | ⟨_, hdiffers⟩)
      · exact hindex hplace
      · exact hcommitment hdiffers
    rw [or_iff_right hnone, and_iff_right hfits]
  | case4 sidecars start commitments hend =>
    refine iff_of_false (by simp) ?_
    rintro ⟨place, sidecar, commitment, hsidecar, hcommitment, _⟩
    exact not_both_of_end hend hsidecar hcommitment

/-! ## Both checks -/

/-- For as many sidecars as commitments, all of them fit just if they say the places in order and
match the block. -/
theorem allFit_zero_iff (hlength : sidecars.length = commitments.length) :
    AllFit 0 sidecars commitments ↔
      sidecars.map (fun sidecar => sidecar.index.toNat) = List.range sidecars.length ∧
        ∀ sidecar ∈ sidecars, Matches commitments sidecar := by
  constructor
  · intro hall
    have hfits (place : Nat) (hplace : place < sidecars.length) :
        Fits place sidecars[place] commitments[place] := by
      simpa using hall place _ _ (List.getElem?_eq_getElem hplace)
        (List.getElem?_eq_getElem (hlength ▸ hplace))
    refine ⟨?_, ?_⟩
    · apply List.ext_getElem (by simp)
      intro place hplace _
      rw [List.length_map] at hplace
      simpa using (hfits place hplace).index
    · intro sidecar hmem
      rcases List.mem_iff_getElem.1 hmem with ⟨place, hplace, rfl⟩
      have hinside : place < commitments.length := hlength ▸ hplace
      rw [Matches, (hfits place hplace).index, (hfits place hplace).commitment]
      exact List.getElem?_eq_getElem hinside
  · rintro ⟨horder, hmatches⟩ place sidecar commitment hsidecar hcommitment
    have hplace : place < sidecars.length := (List.getElem?_eq_some_iff.1 hsidecar).1
    have hindex : sidecar.index.toNat = place := by
      have hsaid : (sidecars.map fun sidecar => sidecar.index.toNat)[place]? =
          some sidecar.index.toNat := by
        rw [List.getElem?_map, hsidecar, Option.map_some]
      rw [horder, List.getElem?_range hplace] at hsaid
      exact (Option.some.inj hsaid).symm
    have hmatch := hmatches sidecar (List.mem_of_getElem? hsidecar)
    rw [Matches, hindex, hcommitment] at hmatch
    exact ⟨by rw [hindex, Nat.zero_add], (Option.some.inj hmatch).symm⟩

theorem checkComplete_of_length_eq (hlength : sidecars.length = commitments.length) :
    checkComplete sidecars commitments = checkFrom 0 sidecars commitments :=
  if_neg (not_not.2 hlength)

theorem checkComplete_eq_ok_iff :
    checkComplete sidecars commitments = .ok () ↔
      sidecars.length = commitments.length ∧ AllFit 0 sidecars commitments := by
  by_cases hlength : sidecars.length = commitments.length
  · rw [checkComplete_of_length_eq hlength, checkFrom_eq_ok_iff, and_iff_right hlength]
  · rw [checkComplete, if_pos hlength]
    exact iff_of_false (by simp) fun hcomplete => hlength hcomplete.1

/-- Sidecars are all blobs of a block in order just if there are as many as commitments, they say
the places from zero on, and each is a blob of the block.  They are blobs of the block just if each
says a place inside it where its commitment stands, so any of them are, in whatever order, also of a
block with further commitments.  If there are as many as commitments and they are refused, it is for
what is wrong with the first that does not fit its place. -/
theorem checkComplete_agrees (sidecars : List BlobSidecar) (commitments : List KzgCommitment) :
    (checkComplete sidecars commitments = .ok () ↔
      sidecars.length = commitments.length ∧
        sidecars.map (fun sidecar => sidecar.index.toNat) = List.range sidecars.length ∧
        checkListed commitments sidecars = .ok ()) ∧
    (checkListed commitments sidecars = .ok () ↔
      ∀ sidecar ∈ sidecars, ∃ hinside : sidecar.index.toNat < commitments.length,
        commitments[sidecar.index.toNat] = sidecar.commitment) ∧
    (checkListed commitments sidecars = .ok () →
      ∀ kept ⊆ sidecars, ∀ more, checkListed (commitments ++ more) kept = .ok ()) ∧
    (sidecars.length = commitments.length → ∀ cause,
      checkComplete sidecars commitments = .error cause ↔
        FirstMisfit 0 sidecars commitments cause) := by
  refine ⟨?_, ?_, ?_, ?_⟩
  · rw [checkComplete_eq_ok_iff, checkListed_eq_ok_iff]
    exact and_congr_right allFit_zero_iff
  · simp only [checkListed_eq_ok_iff, Matches, List.getElem?_eq_some_iff]
  · intro hlisted kept hkept more
    rw [checkListed_eq_ok_iff] at hlisted ⊢
    exact fun sidecar hmem => (hlisted sidecar (hkept hmem)).append more
  · intro hlength cause
    rw [checkComplete_of_length_eq hlength, checkFrom_eq_error_iff]

/-- Two sidecars of a block: in order they are all its blobs, the second is one of them also beside
a further commitment, and in the wrong order the first place is at fault, for its index although the
commitment is wrong as well. -/
theorem checkComplete_agrees_two :
    let first : BlobSidecar := ⟨0, #[], Vector.replicate 48 1, Vector.replicate 48 0⟩
    let second : BlobSidecar := ⟨1, #[], Vector.replicate 48 2, Vector.replicate 48 0⟩
    let block : List KzgCommitment := [first.commitment, second.commitment]
    checkComplete [first, second] block = .ok () ∧
      checkListed (block ++ [first.commitment]) [second] = .ok () ∧
      [second, first].length = block.length ∧
      checkComplete [second, first] block = .error (.invalidArgument (.sidecarPosition 0 1)) := by
  intro first second block
  rcases checkComplete_agrees [first, second] block with ⟨hcomplete, hlisted, hkept, _⟩
  rcases checkComplete_agrees [second, first] block with ⟨_, _, _, hfault⟩
  have hmatch : checkListed block [first, second] = .ok () := hlisted.2 (by decide)
  refine ⟨hcomplete.2 ⟨rfl, rfl, hmatch⟩, hkept hmatch [second] (by decide) _, rfl, ?_⟩
  refine (hfault rfl _).2 ⟨0, second, first.commitment, rfl, rfl, .index (by decide), ?_⟩
  simp [AllFit]

end BlobSidecar

end BeaconDuties
