import BeaconDuties.Proofs.Proposer.FirstVisit

/-!
# OnePass — with one full balance the search ends within a pass

The search has no limit of its own below the numbers of a word, and a candidate with little at stake
may be passed over again and again.  A candidate with at least the ceiling never is, whatever value
is drawn, and a shuffle visits each candidate once per pass.  So if some balance is full, or is not
known at all, the search ends no later than the first visit of such a candidate, which lies in the
first pass.

* `ProposerLottery.FullOrUnknown` — the candidates that are never passed over;
* `ProposerLottery.exists_visit_of_mem` — each candidate is visited in the first pass;
* `ProposerLottery.draw_within_pass` — where the search ends, and how.
-/

namespace BeaconDuties

namespace ProposerLottery

/-- Whether a validator's balance is at least the ceiling, or is not known. -/
def FullOrUnknown (lottery : ProposerLottery) (validator : ValidatorIndex) : Prop :=
  ∀ balance, lottery.balances validator = some balance → lottery.ceiling ≤ balance

variable {lottery : ProposerLottery} {candidate : Nat → ValidatorIndex} {i last : Nat}
  {validator : ValidatorIndex}

theorem settledAt_ne_none_of_fullOrUnknown (hstake : lottery.FullOrUnknown (candidate i)) :
    lottery.settledAt candidate i ≠ none := by
  intro hgo
  rcases settledAt_eq_none_iff.1 hgo with ⟨⟨balance, hknown⟩, hrefused⟩
  exact hrefused (acceptableAt_of_full hknown (hstake balance hknown))

/-- The shuffle is onto, so the first pass leaves nobody out. -/
theorem exists_visit_of_mem (hfits : lottery.candidates.size ≤ maxListSize)
    (hvisits : lottery.Visits candidate) (hmem : validator ∈ lottery.candidates) :
    ∃ i < lottery.candidates.size, candidate i = validator := by
  rcases Array.mem_iff_getElem.1 hmem with ⟨place, hplace, rfl⟩
  let perm := Shuffle.positionPerm lottery.seed lottery.candidates.size lottery.rounds
  let source : Fin lottery.candidates.size := perm.symm ⟨place, hplace⟩
  -- The visit asked for is the one that the shuffle takes to the validator's place.
  refine ⟨source, source.isLt, ?_⟩
  rcases hvisits source with ⟨position, hposition, hcandidate⟩
  have hanswer := Shuffle.shuffledIndex_eq_ok lottery.seed lottery.rounds hfits source
  rw [Nat.mod_eq_of_lt source.isLt, hanswer] at hposition
  have hsame : (perm source).val = position.val := Except.ok.inj hposition
  have hback : perm source = ⟨place, hplace⟩ := perm.apply_symm_apply _
  have hvisited : position = ⟨place, hplace⟩ := by
    rw [← hback]
    exact Fin.ext hsame.symm
  rw [hcandidate, hvisited]
  rfl

theorem exists_first_fullOrUnknown (hfits : lottery.candidates.size ≤ maxListSize)
    (hvisits : lottery.Visits candidate)
    (hstake : ∃ validator ∈ lottery.candidates, lottery.FullOrUnknown validator) :
    ∃ last < lottery.candidates.size, IsLeast {i | lottery.FullOrUnknown (candidate i)} last := by
  classical
  rcases hstake with ⟨validator, hmem, hstake⟩
  rcases exists_visit_of_mem hfits hvisits hmem with ⟨i, hi, rfl⟩
  have hexists : ∃ i, lottery.FullOrUnknown (candidate i) := ⟨i, hstake⟩
  have hpass : Nat.find hexists < lottery.candidates.size :=
    (Nat.find_min' hexists hstake).trans_lt hi
  exact ⟨Nat.find hexists, hpass, Nat.isLeast_find hexists⟩

/-- An unknown candidate before the first full or unknown one would be such a one. -/
theorem exists_balance_of_lt_first
    (hleast : IsLeast {i | lottery.FullOrUnknown (candidate i)} last) (hlt : i < last) :
    ∃ balance, lottery.balances (candidate i) = some balance := by
  by_contra hunknown
  have hearlier : lottery.FullOrUnknown (candidate i) := by
    intro balance hbalance
    exact (hunknown ⟨balance, hbalance⟩).elim
  exact Nat.not_le.2 hlt (hleast.2 hearlier)

/-- A visit of a known candidate that ends the search succeeds. -/
theorem exists_draw_of_known {result : Except DutyError ProposerDraw} (hlimit : i < visitLimit)
    (hknown : ∃ balance, lottery.balances (candidate i) = some balance)
    (hresult : lottery.settledAt candidate i = some result) :
    ∃ draw, result = .ok draw ∧ draw.iteration.toNat = i := by
  cases result with
  | ok draw =>
    have hdraw := (settledAt_eq_ok_iff.1 hresult).2
    exact ⟨draw, rfl, ((eq_drawAt_iff hlimit).1 hdraw).2.1⟩
  | error cause =>
    rcases hknown with ⟨balance, hbalance⟩
    rcases settledAt_eq_error_iff.1 hresult with ⟨hunknown, _⟩
    rw [hunknown] at hbalance
    cases hbalance

/-- If all balances are known and one of them is full, the search succeeds. -/
theorem exists_draw_of_forall_known (hfits : lottery.candidates.size ≤ maxListSize)
    (hknown : ∀ validator ∈ lottery.candidates,
      ∃ balance, lottery.balances validator = some balance)
    (hstake : ∃ validator ∈ lottery.candidates, lottery.FullOrUnknown validator) :
    ∃ draw, lottery.draw = .ok draw := by
  rcases hstake with ⟨validator, hmem, hfull⟩
  have hsome : 0 < lottery.candidates.size := Array.size_pos_of_mem hmem
  rcases exists_visits hsome hfits with ⟨candidate, hvisits⟩
  rcases exists_visit_of_mem hfits hvisits hmem with ⟨i, hi, rfl⟩
  rcases exists_first_settled (settledAt_ne_none_of_fullOrUnknown hfull) with
    ⟨stop, hstop, result, hresult, hfirst⟩
  have hlimit : stop < visitLimit := by
    have hword : maxListSize < visitLimit := by decide
    omega
  -- Whoever is visited is one of the candidates, so the visit that ends the search knows it.
  rcases hvisits stop with ⟨position, _, hcandidate⟩
  have hvisited : candidate stop ∈ lottery.candidates := by
    rw [hcandidate]
    exact Array.getElem_mem _
  rcases exists_draw_of_known hlimit (hknown _ hvisited) hresult with ⟨draw, rfl, _⟩
  exact ⟨draw, draw_of_first hsome hvisits hlimit hresult hfirst⟩

/-- If some of up to `2 ^ 40` candidates has at least the ceiling or no known balance, the first
visit of such a candidate lies in the first pass, and the search stops there or before.  It succeeds
if it stops before or if that candidate's balance is known, and names the candidate if not. -/
theorem draw_within_pass (lottery : ProposerLottery) (hfits : lottery.candidates.size ≤ 2 ^ 40)
    (hstake : ∃ validator ∈ lottery.candidates, lottery.FullOrUnknown validator) :
    ∃ candidate, lottery.Visits candidate ∧
      ∃ last < lottery.candidates.size,
        IsLeast {i | lottery.FullOrUnknown (candidate i)} last ∧
        ∃ stop ≤ last,
          (∀ j < stop, (∃ balance, lottery.balances (candidate j) = some balance) ∧
            ¬ lottery.AcceptableAt candidate j) ∧
          ((stop < last ∨ ∃ balance, lottery.balances (candidate last) = some balance) →
            ∃ draw, lottery.draw = .ok draw ∧ draw.iteration.toNat = stop) ∧
          (stop = last → lottery.balances (candidate last) = none →
            lottery.draw = .error (.unknownValidator (candidate last))) := by
  have hsome : 0 < lottery.candidates.size := by
    rcases hstake with ⟨validator, hmem, _⟩
    exact Array.size_pos_of_mem hmem
  rw [← maxListSize_eq_two_pow] at hfits
  rcases exists_visits hsome hfits with ⟨candidate, hvisits⟩
  rcases exists_first_fullOrUnknown hfits hvisits hstake with ⟨last, hpass, hleast⟩
  -- That visit settles something, so the first one to do so is not after it.
  rcases exists_first_settled (settledAt_ne_none_of_fullOrUnknown hleast.1) with
    ⟨stop, hstop, result, hresult, hfirst⟩
  have hlimit : stop < visitLimit := by
    have hword : maxListSize < visitLimit := by decide
    omega
  have hdraw := draw_of_first hsome hvisits hlimit hresult hfirst
  refine ⟨candidate, hvisits, last, hpass, hleast, stop, hstop, ?_, ?_, ?_⟩
  · intro j hj
    exact settledAt_eq_none_iff.1 (hfirst j hj)
  · intro hends
    have hknown : ∃ balance, lottery.balances (candidate stop) = some balance := by
      rcases Nat.lt_or_eq_of_le hstop with hlt | rfl
      · exact exists_balance_of_lt_first hleast hlt
      · exact hends.resolve_left (Nat.lt_irrefl _)
    rw [hdraw]
    exact exists_draw_of_known hlimit hknown hresult
  · rintro rfl hunknown
    have hsettled := settledAt_eq_error_iff.2 ⟨hunknown, rfl⟩
    rw [hsettled] at hresult
    rw [hdraw]
    exact (Option.some.inj hresult).symm

/-- One candidate with nothing and one with everything. -/
theorem draw_within_pass_two :
    let lottery : ProposerLottery :=
      ⟨#[1, 2], zeroHash, fun validator => some (if validator = 2 then 32 else 0), 32, 3, .byte⟩
    lottery.candidates.size ≤ 2 ^ 40 ∧
      (∃ validator ∈ lottery.candidates, lottery.FullOrUnknown validator) ∧
      ∃ draw, lottery.draw = .ok draw ∧ draw.iteration.toNat < 2 := by
  intro lottery
  have hfits : lottery.candidates.size ≤ 2 ^ 40 := by decide
  have hstake : ∃ validator ∈ lottery.candidates, lottery.FullOrUnknown validator := by
    refine ⟨2, by simp [lottery], ?_⟩
    rintro _ ⟨⟩
    decide
  rcases draw_within_pass lottery hfits hstake with
    ⟨candidate, _, last, hpass, _, stop, hstop, _, hends, _⟩
  rcases hends (.inr ⟨_, rfl⟩) with ⟨draw, hdraw, hiteration⟩
  refine ⟨hfits, hstake, draw, hdraw, ?_⟩
  rw [hiteration]
  exact hstop.trans_lt hpass

end ProposerLottery

end BeaconDuties
