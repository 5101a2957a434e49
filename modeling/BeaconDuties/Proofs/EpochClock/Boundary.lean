import BeaconDuties.EpochClock
import Mathlib

/-!
# Boundary — multiples of `n` epochs between two slots

A block is tested against its parent by the number of whole periods of `n` epochs before each of
them.  Rounding down to epochs and then to periods is rounding down once, to periods counted in
slots, even where a period has more slots than a word can count.  So the test asks for a multiple of
the period after the parent and not after the block.  Such a multiple lies on one side of any slot
in between, which is why no boundary is missed or invented where blocks are skipped.

* `EpochClock.HasBoundary` — some multiple of `n` epochs lies between two slots;
* `EpochClock.crossesBoundary_eq_true_iff` — the test finds it;
* `EpochClock.hasBoundary_split`, `EpochClock.hasBoundary_chain` — one slot in between, and a chain
  of them;
* `EpochClock.crossesBoundary_composes` — the test over all slots and along every chain.
-/

namespace BeaconDuties

namespace EpochClock

variable (clock : EpochClock) {n : UInt64} {earlier middle later : Slot}

/-- The slots in `n` epochs, of which there may be more than words. -/
def periodSlots (n : UInt64) : Nat :=
  n.toNat * clock.slotsPerEpoch.toNat

/-- A multiple of `n` epochs lies after one slot and not after another. -/
def HasBoundary (n : UInt64) (earlier later : Slot) : Prop :=
  ∃ boundary, clock.periodSlots n ∣ boundary ∧ earlier.toNat < boundary ∧ boundary ≤ later.toNat

/-! ## One test -/

/-- Rounding down to epochs and then to periods is rounding down once. -/
theorem toNat_epochAt_div (slot : Slot) (n : UInt64) :
    (clock.epochAt slot / n).toNat = slot.toNat / clock.periodSlots n := by
  rw [UInt64.toNat_div, epochAt, UInt64.toNat_div, Nat.div_div_eq_div_mul, Nat.mul_comm,
    periodSlots]

/-- More whole periods lie before the later slot just if one of them ends between the two. -/
theorem div_lt_div_iff_exists_dvd {period first second : Nat} :
    first / period < second / period ↔
      ∃ boundary, period ∣ boundary ∧ first < boundary ∧ boundary ≤ second := by
  rcases Nat.eq_zero_or_pos period with rfl | hperiod
  · -- The only multiple of zero lies after nothing.
    simp
  constructor
  · intro hlt
    -- The last multiple that the second number has reached lies past the first one.
    refine ⟨second / period * period, Nat.dvd_mul_left _ _, ?_, Nat.div_mul_le_self _ _⟩
    exact (Nat.div_lt_iff_lt_mul hperiod).1 hlt
  · rintro ⟨_, ⟨count, rfl⟩, hafter, hreached⟩
    rw [Nat.mul_comm] at hafter hreached
    have hfirst : first / period < count := (Nat.div_lt_iff_lt_mul hperiod).2 hafter
    have hsecond : count ≤ second / period := (Nat.le_div_iff_mul_le hperiod).2 hreached
    exact hfirst.trans_le hsecond

theorem epochAt_div_lt_iff :
    clock.epochAt earlier / n < clock.epochAt later / n ↔ clock.HasBoundary n earlier later := by
  rw [UInt64.lt_iff_toNat_lt, toNat_epochAt_div, toNat_epochAt_div]
  exact div_lt_div_iff_exists_dvd

instance (n : UInt64) (earlier later : Slot) : Decidable (clock.HasBoundary n earlier later) :=
  decidable_of_iff _ clock.epochAt_div_lt_iff

theorem crossesBoundary_zero (block parent : Slot) :
    clock.crossesBoundary block parent 0 = .error (.invalidArgument .noEpochs) :=
  if_pos rfl

theorem crossesBoundary_of_ne_zero (hn : n ≠ 0) (block parent : Slot) :
    clock.crossesBoundary block parent n = .ok (decide (clock.HasBoundary n parent block)) := by
  rw [crossesBoundary, if_neg hn, decide_eq_decide.2 clock.epochAt_div_lt_iff]

theorem crossesBoundary_eq_true_iff (hn : n ≠ 0) (block parent : Slot) :
    clock.crossesBoundary block parent n = .ok true ↔ clock.HasBoundary n parent block := by
  rw [clock.crossesBoundary_of_ne_zero hn, Except.ok.injEq, decide_eq_true_iff]

/-! ## Chains of slots -/

theorem not_hasBoundary_of_le (hle : later ≤ earlier) : ¬ clock.HasBoundary n earlier later := by
  rintro ⟨boundary, _, hafter, hreached⟩
  have horder := UInt64.le_iff_toNat_le.1 hle
  omega

/-- A boundary between two slots lies before or after any slot in between. -/
theorem hasBoundary_split (hfirst : earlier ≤ middle) (hsecond : middle ≤ later) :
    clock.HasBoundary n earlier later ↔
      clock.HasBoundary n earlier middle ∨ clock.HasBoundary n middle later := by
  have hfirst' := UInt64.le_iff_toNat_le.1 hfirst
  have hsecond' := UInt64.le_iff_toNat_le.1 hsecond
  constructor
  · rintro ⟨boundary, hmultiple, hafter, hreached⟩
    rcases Nat.lt_or_ge middle.toNat boundary with hlate | hearly
    · exact .inr ⟨boundary, hmultiple, hlate, hreached⟩
    · exact .inl ⟨boundary, hmultiple, hafter, hearly⟩
  · rintro (⟨boundary, hmultiple, hafter, hreached⟩ | ⟨boundary, hmultiple, hafter, hreached⟩)
    · exact ⟨boundary, hmultiple, hafter, hreached.trans hsecond'⟩
    · exact ⟨boundary, hmultiple, hfirst'.trans_lt hafter, hreached⟩

theorem le_of_chain {slot : Nat → Slot} {last : Nat} (hchain : ∀ i < last, slot i ≤ slot (i + 1)) :
    slot 0 ≤ slot last := by
  induction last with
  | zero => exact UInt64.le_refl _
  | succ last ih =>
    have hbefore := ih fun i hi => hchain i (Nat.lt_succ_of_lt hi)
    exact UInt64.le_trans hbefore (hchain last (Nat.lt_succ_self last))

/-- A boundary between the ends of a chain lies between two neighbours, and conversely. -/
theorem hasBoundary_chain {slot : Nat → Slot} {last : Nat}
    (hchain : ∀ i < last, slot i ≤ slot (i + 1)) :
    clock.HasBoundary n (slot 0) (slot last) ↔
      ∃ i < last, clock.HasBoundary n (slot i) (slot (i + 1)) := by
  induction last with
  | zero =>
    have hnone := clock.not_hasBoundary_of_le (n := n) (UInt64.le_refl (slot 0))
    simp [hnone]
  | succ last ih =>
    have hbefore : ∀ i < last, slot i ≤ slot (i + 1) := fun i hi =>
      hchain i (Nat.lt_succ_of_lt hi)
    -- The last slot but one splits the chain into a shorter one and its last step.
    rw [clock.hasBoundary_split (le_of_chain hbefore) (hchain last (Nat.lt_succ_self last)),
      ih hbefore, Nat.exists_lt_succ_right]

/-- Only a boundary every zero epochs is refused.  Otherwise the test holds just if some exact
multiple of `n` epochs lies after the parent and not after the block, so over a chain of slots that
never goes back it holds from end to end just if it holds for some slot and the one before. -/
theorem crossesBoundary_composes (clock : EpochClock) :
    (∀ block parent n,
      (∃ cause, clock.crossesBoundary block parent n = .error cause) ↔ n = 0) ∧
    (∀ n ≠ 0, ∀ block parent,
      clock.crossesBoundary block parent n = .ok true ↔
        ∃ boundary, n.toNat * clock.slotsPerEpoch.toNat ∣ boundary ∧
          parent.toNat < boundary ∧ boundary ≤ block.toNat) ∧
    ∀ n ≠ 0, ∀ (slot : Nat → Slot) (last : Nat), (∀ i < last, slot i ≤ slot (i + 1)) →
      (clock.crossesBoundary (slot last) (slot 0) n = .ok true ↔
        ∃ i < last, clock.crossesBoundary (slot (i + 1)) (slot i) n = .ok true) := by
  refine ⟨?_, fun n hn block parent => clock.crossesBoundary_eq_true_iff hn block parent, ?_⟩
  · intro block parent n
    constructor
    · rintro ⟨cause, hcause⟩
      by_contra hn
      rw [clock.crossesBoundary_of_ne_zero hn] at hcause
      cases hcause
    · rintro rfl
      exact ⟨_, clock.crossesBoundary_zero block parent⟩
  · intro n hn slot last hchain
    simp only [clock.crossesBoundary_eq_true_iff hn]
    exact clock.hasBoundary_chain hchain

/-- Two epochs of 32 slots over a parent in slot 63: the boundary in slot 64 is crossed by the first
of two blocks in slot 65.  The last slot of all crosses no boundary of `2 ^ 63` epochs, since
`2 ^ 68` slots are more than there are words. -/
theorem crossesBoundary_composes_skipped :
    ∃ clock : EpochClock, EpochClock.ofParts 32 12 4 = .ok clock ∧
      let slot : Nat → Slot := fun i => [63, 65, 65].getD i 66
      (∀ i < 3, slot i ≤ slot (i + 1)) ∧
      clock.crossesBoundary (slot 3) (slot 0) 2 = .ok true ∧
      clock.crossesBoundary (slot 2) (slot 1) 2 ≠ .ok true ∧
      clock.crossesBoundary 18446744073709551615 0 9223372036854775808 ≠ .ok true := by
  let clock : EpochClock := ⟨32, 12, 4, by decide, by decide⟩
  rcases crossesBoundary_composes clock with ⟨_, hexact, hcompose⟩
  have hchain : ∀ i < 3, ([63, 65, 65].getD i 66 : Slot) ≤ [63, 65, 65].getD (i + 1) 66 := by
    decide
  have hfirst : clock.crossesBoundary 65 63 2 = .ok true :=
    (hexact 2 (by decide) 65 63).2 ⟨64, by decide, by decide, by decide⟩
  refine ⟨clock, rfl, hchain, ?_, ?_, ?_⟩
  · exact (hcompose 2 (by decide) _ 3 hchain).2 ⟨0, by decide, hfirst⟩
  · rw [Ne, hexact 2 (by decide)]
    rintro ⟨boundary, _, hafter, hreached⟩
    exact Nat.lt_irrefl _ (hafter.trans_le hreached)
  · rw [Ne, hexact 9223372036854775808 (by decide)]
    rintro ⟨_, ⟨count, rfl⟩, hafter, hreached⟩
    have hperiod : (9223372036854775808 : UInt64).toNat * clock.slotsPerEpoch.toNat = 2 ^ 68 := by
      decide
    have hlast : (18446744073709551615 : Slot).toNat = 2 ^ 64 - 1 := by decide
    have hparent : (0 : Slot).toNat = 0 := rfl
    rw [hperiod] at hafter hreached
    omega

end EpochClock

end BeaconDuties
