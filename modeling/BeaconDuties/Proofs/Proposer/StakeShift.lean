import BeaconDuties.Proofs.Proposer.FirstVisit

/-!
# StakeShift — a winner keeps winning when stake moves towards it

Two draws over the same candidates and the same seed visit the same candidates and draw the same
values; they differ in the balances alone.  If the second one gives the winner of the first no less
and everybody else no more, then the winner's accepted visit stays acceptable, and a visit that
becomes acceptable before it is one of the winner's own.  So the second draw has the same winner, no
later than before.

* `ProposerLottery.withBalances` — a lottery over other balances;
* `Favours` — what it means that stake moves towards a validator;
* `ProposerLottery.AcceptableAt.withBalances` — acceptability follows the candidate's balance;
* `ProposerLottery.draw_of_favours` — the winner of the second draw.
-/

namespace BeaconDuties

/-- Stake moves towards a validator: the same validators are known before and after, the favoured
one has no less afterwards, and no other one has more. -/
structure Favours (before after : BalanceLookup) (favoured : ValidatorIndex) : Prop where
  known : ∀ validator, after validator = none ↔ before validator = none
  gains : ∀ old new, before favoured = some old → after favoured = some new → old ≤ new
  loses : ∀ validator, validator ≠ favoured → ∀ old new, before validator = some old →
    after validator = some new → new ≤ old

namespace ProposerLottery

/-- The same lottery over other balances. -/
def withBalances (lottery : ProposerLottery) (balances : BalanceLookup) : ProposerLottery :=
  { lottery with balances := balances }

variable {lottery : ProposerLottery} {after : BalanceLookup} {candidate : Nat → ValidatorIndex}
  {i last : Nat} {draw : ProposerDraw}

/-- Whom the visits see does not depend on the balances. -/
theorem Visits.withBalances (hvisits : lottery.Visits candidate) (after : BalanceLookup) :
    (lottery.withBalances after).Visits candidate :=
  hvisits

/-- The search refuses a list without candidates and one that is too long at its first visit. -/
theorem size_of_draw_eq_ok (hdraw : lottery.draw = .ok draw) :
    0 < lottery.candidates.size ∧ lottery.candidates.size ≤ maxListSize := by
  have hsome : 0 < lottery.candidates.size := by
    by_contra hnone
    have hempty : lottery.candidates.isEmpty := by
      simpa using hnone
    simp [ProposerLottery.draw, hempty] at hdraw
  refine ⟨hsome, ?_⟩
  by_contra hlong
  have hlimit : 0 < visitLimit := by decide
  have hrefused : Shuffle.shuffledIndex 0 lottery.candidates.size lottery.seed lottery.rounds =
      .error (.invalidArgument (.listTooLong lottery.candidates.size)) := by
    simp [Shuffle.shuffledIndex, Shuffle.checkListSize_of_lt (Nat.not_le.1 hlong), Except.map,
      Nat.ne_of_gt hsome]
  rw [draw_eq_searchFrom hsome, searchFrom, if_pos hlimit] at hdraw
  simp [hrefused] at hdraw

/-- A visit stays acceptable when its candidate stays known and has no less than before. -/
theorem AcceptableAt.withBalances (haccepted : lottery.AcceptableAt candidate i)
    (hknown : after (candidate i) ≠ none)
    (hle : ∀ old new, lottery.balances (candidate i) = some old →
      after (candidate i) = some new → old ≤ new) :
    (lottery.withBalances after).AcceptableAt candidate i := by
  rcases haccepted with ⟨old, hold, hvalue⟩
  rcases Option.ne_none_iff_exists'.1 hknown with ⟨new, hnew⟩
  have hstake : old.toNat ≤ new.toNat := UInt64.le_iff_toNat_le.1 (hle old new hold hnew)
  exact ⟨new, hnew, hvalue.trans (Nat.mul_le_mul_right _ hstake)⟩

section Favours

variable {favoured : ValidatorIndex} (hfavours : Favours lottery.balances after favoured)

include hfavours

theorem acceptableAt_of_favoured (haccepted : lottery.AcceptableAt candidate i)
    (hcandidate : candidate i = favoured) :
    (lottery.withBalances after).AcceptableAt candidate i := by
  have hbalance : lottery.balances (candidate i) ≠ none := by
    rcases haccepted with ⟨old, hold, _⟩
    simp [hold]
  refine haccepted.withBalances (mt (hfavours.known _).1 hbalance) ?_
  intro old new hold hnew
  rw [hcandidate] at hold hnew
  exact hfavours.gains old new hold hnew

/-- Nobody but the favoured validator is acceptable after the move without being so before. -/
theorem acceptableAt_of_not_favoured
    (haccepted : (lottery.withBalances after).AcceptableAt candidate i)
    (hcandidate : candidate i ≠ favoured) : lottery.AcceptableAt candidate i := by
  have hbalance : after (candidate i) ≠ none := by
    rcases haccepted with ⟨new, hnew, _⟩
    intro hnone
    exact Option.some_ne_none new (hnew.symm.trans hnone)
  exact haccepted.withBalances (mt (hfavours.known _).2 hbalance) fun new old hnew hold =>
    hfavours.loses _ hcandidate old new hold hnew

/-- The first acceptable visit after the move is one of the favoured validator, and the old one if
that validator's balance has not changed. -/
theorem exists_first_of_favours (hleast : IsLeast {j | lottery.AcceptableAt candidate j} last)
    (hcandidate : candidate last = favoured) :
    ∃ first ≤ last, IsLeast {j | (lottery.withBalances after).AcceptableAt candidate j} first ∧
      candidate first = favoured ∧
      (after favoured = lottery.balances favoured → first = last) := by
  classical
  have hlast : (lottery.withBalances after).AcceptableAt candidate last :=
    acceptableAt_of_favoured hfavours hleast.1 hcandidate
  have hexists : ∃ j, (lottery.withBalances after).AcceptableAt candidate j := ⟨last, hlast⟩
  have hfirst := Nat.find_spec hexists
  have hsoon : Nat.find hexists ≤ last := Nat.find_min' hexists hlast
  -- Whoever else it were would have been accepted at that visit before the move already.
  have hwinner : candidate (Nat.find hexists) = favoured := by
    by_contra hother
    have hearlier := hleast.2 (acceptableAt_of_not_favoured hfavours hfirst hother)
    rw [Nat.le_antisymm hsoon hearlier] at hother
    exact hother hcandidate
  refine ⟨Nat.find hexists, hsoon, Nat.isLeast_find hexists, hwinner, ?_⟩
  intro hsame
  refine Nat.le_antisymm hsoon (hleast.2 ?_)
  rcases hfirst with ⟨balance, hbalance, hvalue⟩
  refine ⟨balance, ?_, hvalue⟩
  rw [hwinner, ← hsame, ← hwinner]
  exact hbalance

end Favours

/-- If stake moves towards the winner of a draw, the draw over the new balances has the same winner
at the same visit or an earlier one, and it is the same draw if the winner's own balance stays. -/
theorem draw_of_favours (lottery : ProposerLottery) (after : BalanceLookup)
    (hdraw : lottery.draw = .ok draw) (hfavours : Favours lottery.balances after draw.index) :
    ∃ draw', (lottery.withBalances after).draw = .ok draw' ∧ draw'.index = draw.index ∧
      draw'.iteration ≤ draw.iteration ∧
      (after draw.index = lottery.balances draw.index → draw' = draw) := by
  rcases size_of_draw_eq_ok hdraw with ⟨hsome, hfits⟩
  rcases exists_visits hsome hfits with ⟨candidate, hvisits⟩
  rcases (draw_eq_ok_iff hsome hvisits).1 hdraw with ⟨last, hlimit, hleast, hknown, rfl⟩
  rcases exists_first_of_favours hfavours hleast rfl with
    ⟨first, hsoon, hfirst, hwinner, hstays⟩
  have hsome' : 0 < (lottery.withBalances after).candidates.size := hsome
  have hlimit' : first < visitLimit := hsoon.trans_lt hlimit
  have hknown' : ∀ j ≤ first, ∃ balance, after (candidate j) = some balance := by
    intro j hj
    rcases hknown j (hj.trans hsoon) with ⟨balance, hbalance⟩
    have hbefore : lottery.balances (candidate j) ≠ none := by simp [hbalance]
    exact Option.ne_none_iff_exists'.1 (mt (hfavours.known _).1 hbefore)
  refine ⟨(lottery.withBalances after).drawAt candidate first,
    (draw_eq_ok_iff hsome' (hvisits.withBalances after)).2 ⟨first, hlimit', hfirst, hknown', rfl⟩,
    hwinner, ?_, ?_⟩
  · apply UInt64.le_iff_toNat_le.2
    rw [((eq_drawAt_iff hlimit').1 rfl).2.1, ((eq_drawAt_iff hlimit).1 rfl).2.1]
    exact hsoon
  · intro hsame
    rw [hstays hsame]
    rfl

/-- Validator 1 wins at its third chance.  With one unit more it still wins, and it wins the very
same visit if only the other validator loses. -/
theorem draw_of_favours_three :
    let lottery : ProposerLottery := ⟨#[1, 2, 1], zeroHash, fun _ => some 5, 32, 1, .byte⟩
    let gained : BalanceLookup := fun validator => some (if validator = 1 then 6 else 5)
    let lost : BalanceLookup := fun validator => some (if validator = 1 then 5 else 0)
    lottery.draw = .ok ⟨1, 3, 29, 255⟩ ∧ Favours lottery.balances gained 1 ∧
      Favours lottery.balances lost 1 ∧
      (∃ draw, (lottery.withBalances gained).draw = .ok draw ∧ draw.index = 1 ∧
        draw.iteration ≤ 3) ∧
      (lottery.withBalances lost).draw = .ok ⟨1, 3, 29, 255⟩ := by
  intro lottery gained lost
  have hdraw : lottery.draw = .ok ⟨1, 3, 29, 255⟩ := by
    have hanswer : (ProposerLottery.draw
        ⟨#[1, 2, 1], zeroHash, fun _ => some 5, 32, 1, .byte⟩).toOption =
          some ⟨1, 3, 29, 255⟩ := by decide +kernel
    cases hresult : lottery.draw with
    | error cause => simp [lottery, hresult, Except.toOption] at hanswer
    | ok draw => simpa [lottery, hresult, Except.toOption] using hanswer
  have hgained : Favours lottery.balances gained 1 := by
    refine ⟨by simp [lottery, gained], ?_, ?_⟩
    · rintro old new ⟨⟩ ⟨⟩
      decide
    · rintro validator hother old new ⟨⟩ ⟨⟩
      simp [hother]
  have hlost : Favours lottery.balances lost 1 := by
    refine ⟨by simp [lottery, lost], ?_, ?_⟩
    · rintro old new ⟨⟩ ⟨⟩
      decide
    · rintro validator hother old new ⟨⟩ ⟨⟩
      simp [hother]
  refine ⟨hdraw, hgained, hlost, ?_, ?_⟩
  · rcases draw_of_favours lottery gained hdraw hgained with ⟨draw, hsuccess, hindex, hsoon, _⟩
    exact ⟨draw, hsuccess, hindex, hsoon⟩
  · rcases draw_of_favours lottery lost hdraw hlost with ⟨draw, hsuccess, _, _, hsame⟩
    rw [hsuccess, hsame rfl]

end ProposerLottery

end BeaconDuties
