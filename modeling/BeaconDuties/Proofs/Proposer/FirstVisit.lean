import BeaconDuties.Proofs.Shuffle.Bijection
import BeaconDuties.Proposer

/-!
# FirstVisit — the search for a proposer ends at the first visit that settles it

Seen from outside, visit `i` looks at the candidate in place `i` of the shuffled list, which is
repeated without end, and draws the value in place `i` of the stream of digests of the seed and a
counter.  The search carries one digest along and draws the next one when its values are used up.
This file shows that the carried digest is always that of the visit, and that the search therefore
answers for the first visit that is acceptable or has an unknown candidate:

* `DrawWidth.nthValue`, `DrawWidth.toNat_valueAt` — the values of a digest, read as numbers;
* `ProposerLottery.Visits`, `ProposerLottery.drawnValue` — the candidates and values of all visits;
* `ProposerLottery.settledAt` — what a visit settles by itself;
* `ProposerLottery.searchFrom_step`, `ProposerLottery.searchFrom_skip` — one visit, and those that
  leave the search to the next one;
* `ProposerLottery.draw_iff_first_visit` — when a draw succeeds, and when a candidate is unknown.
-/

namespace BeaconDuties

/-! ## Values of a digest -/

namespace Bytes

variable {n start stop : Nat}

/-- The first byte of a stretch is the lowest one of the number that it spells. -/
theorem toNatLE_extract_of_lt (bytes : Bytes n) (hstart : start < stop) (hstop : stop ≤ n) :
    Bytes.toNatLE (bytes.extract start stop) =
      bytes[start].toNat + 256 * Bytes.toNatLE (bytes.extract (start + 1) stop) := by
  have hinside : start < bytes.toList.length := by
    rw [Vector.length_toList]
    omega
  have hlist : (bytes.extract start stop).toList =
      bytes[start] :: (bytes.extract (start + 1) stop).toList := by
    have hcount : stop - start = stop - (start + 1) + 1 := by omega
    rw [Vector.toList_extract, Vector.toList_extract, List.drop_eq_getElem_cons hinside, hcount,
      List.take_succ_cons, Vector.getElem_toList]
  rw [Bytes.toNatLE, hlist]
  rfl

theorem toNatLE_extract_self (bytes : Bytes n) (stop : Nat) :
    Bytes.toNatLE (bytes.extract stop stop) = 0 := by
  have hlist : (bytes.extract stop stop).toList = [] := by
    rw [Vector.toList_extract, Nat.sub_self, List.take_zero]
  rw [Bytes.toNatLE, hlist]
  rfl

end Bytes

namespace DrawWidth

variable {k : Nat}

def bytesPerValue : DrawWidth → Nat
  | byte => 1
  | twoBytes => 2

/-- The `k`-th value of a digest: the number that its bytes spell, lowest first. -/
def nthValue (width : DrawWidth) (block : Bytes 32) (k : Nat) : Nat :=
  Bytes.toNatLE (block.extract (width.bytesPerValue * k)
    (width.bytesPerValue * k + width.bytesPerValue))

theorem nthValue_byte (block : Bytes 32) (hk : k < 32) :
    byte.nthValue block k = block[k].toNat := by
  have hstop : 1 * k + 1 ≤ 32 := by omega
  calc
    byte.nthValue block k
        = block[1 * k].toNat + 256 * Bytes.toNatLE (block.extract (1 * k + 1) (1 * k + 1)) :=
          Bytes.toNatLE_extract_of_lt block (Nat.lt_succ_self _) hstop
    _ = block[k].toNat := by simp [Bytes.toNatLE_extract_self]

theorem nthValue_twoBytes (block : Bytes 32) (hk : k < 16) :
    twoBytes.nthValue block k = block[2 * k].toNat + 256 * block[2 * k + 1].toNat := by
  have hstop : 2 * k + 2 ≤ 32 := by omega
  have hfirst : 2 * k < 2 * k + 2 := by omega
  have hsecond : 2 * k + 1 < 2 * k + 2 := by omega
  calc
    twoBytes.nthValue block k
        = block[2 * k].toNat + 256 * Bytes.toNatLE (block.extract (2 * k + 1) (2 * k + 2)) :=
          Bytes.toNatLE_extract_of_lt block hfirst hstop
    _ = block[2 * k].toNat + 256 * (block[2 * k + 1].toNat +
          256 * Bytes.toNatLE (block.extract (2 * k + 2) (2 * k + 2))) := by
          rw [Bytes.toNatLE_extract_of_lt block hsecond hstop]
    _ = block[2 * k].toNat + 256 * block[2 * k + 1].toNat := by
          simp [Bytes.toNatLE_extract_self]

theorem valuesPerBlock_pos (width : DrawWidth) : 0 < width.valuesPerBlock := by
  cases width with
  | byte => decide
  | twoBytes => decide

theorem nthValue_le (width : DrawWidth) (block : Bytes 32) (hk : k < width.valuesPerBlock) :
    width.nthValue block k ≤ width.maxValue.toNat := by
  cases width with
  | byte =>
    have hplace : k < 32 := hk
    have hbyte := block[k].toNat_lt
    simp only [nthValue_byte block hplace, maxValue, UInt64.reduceToNat]
    omega
  | twoBytes =>
    have hplace : k < 16 := hk
    have hlow := block[2 * k].toNat_lt
    have hhigh := block[2 * k + 1].toNat_lt
    simp only [nthValue_twoBytes block hplace, maxValue, UInt64.reduceToNat]
    omega

/-- A visit reads its value in the place that its number has within the block. -/
theorem toNat_valueAt (width : DrawWidth) (block : Bytes 32) (iteration : Nat) :
    (width.valueAt block iteration).toNat =
      width.nthValue block (iteration % width.valuesPerBlock) := by
  cases width with
  | byte =>
    have hplace : iteration % 32 < 32 := Nat.mod_lt _ (by decide)
    simp [valueAt, valuesPerBlock, nthValue_byte block hplace]
  | twoBytes =>
    have hplace : iteration % 16 < 16 := Nat.mod_lt _ (by decide)
    have hlow := block[2 * (iteration % 16)].toNat_lt
    have hhigh := block[2 * (iteration % 16) + 1].toNat_lt
    -- Two bytes fit a word, so nothing wraps.
    simp only [valueAt, valuesPerBlock, nthValue_twoBytes block hplace, UInt64.toNat_add,
      UInt64.toNat_mul, UInt8.toNat_toUInt64, UInt64.reduceToNat]
    omega

theorem toNat_valueAt_le (width : DrawWidth) (block : Bytes 32) (iteration : Nat) :
    (width.valueAt block iteration).toNat ≤ width.maxValue.toNat := by
  rw [toNat_valueAt]
  exact width.nthValue_le block (Nat.mod_lt iteration width.valuesPerBlock_pos)

end DrawWidth

/-! ## Visits -/

namespace ProposerLottery

section Visits

variable (lottery : ProposerLottery)

/-- The candidates of all visits: the shuffled ones, over and over. -/
def Visits (candidate : Nat → ValidatorIndex) : Prop :=
  ∀ i, ∃ position : Fin lottery.candidates.size,
    Shuffle.shuffledIndex (i % lottery.candidates.size) lottery.candidates.size lottery.seed
      lottery.rounds = .ok position.val ∧ candidate i = lottery.candidates[position]

/-- The digest of the seed and the number of a visit's block. -/
def digestAt (i : Nat) : Bytes 32 :=
  Sha256.hash (lottery.seed.toArray ++
    (Bytes.littleEndian 8 (i / lottery.width.valuesPerBlock)).toArray)

def drawnValue (i : Nat) : Nat :=
  lottery.width.nthValue (lottery.digestAt i) (i % lottery.width.valuesPerBlock)

/-- Whether the balance of a visit's candidate is known and large enough for the visit's value. -/
def AcceptableAt (candidate : Nat → ValidatorIndex) (i : Nat) : Prop :=
  ∃ balance, lottery.balances (candidate i) = some balance ∧
    lottery.ceiling.toNat * lottery.drawnValue i ≤ balance.toNat * lottery.width.maxValue.toNat

def drawAt (candidate : Nat → ValidatorIndex) (i : Nat) : ProposerDraw :=
  ⟨candidate i, UInt64.ofNat i, lottery.width.valueAt (lottery.digestAt i) i,
    lottery.width.maxValue⟩

/-- What a visit settles by itself, if it ends the search. -/
def settledAt (candidate : Nat → ValidatorIndex) (i : Nat) :
    Option (Except DutyError ProposerDraw) :=
  match lottery.balances (candidate i) with
  | none => some (.error (.unknownValidator (candidate i)))
  | some balance =>
    if acceptable balance lottery.ceiling (lottery.width.valueAt (lottery.digestAt i) i)
      lottery.width.maxValue
    then some (.ok (lottery.drawAt candidate i))
    else none

end Visits

variable {lottery : ProposerLottery} {candidate : Nat → ValidatorIndex} {block : Bytes 32}
  {i last : Nat} {result : Except DutyError ProposerDraw}

theorem exists_visits (hsome : 0 < lottery.candidates.size)
    (hfits : lottery.candidates.size ≤ maxListSize) : ∃ candidate, lottery.Visits candidate := by
  let position (i : Nat) : Fin lottery.candidates.size :=
    Shuffle.positionPerm lottery.seed _ lottery.rounds
      ⟨i % lottery.candidates.size, Nat.mod_lt i hsome⟩
  refine ⟨fun i => lottery.candidates[position i], ?_⟩
  intro i
  exact ⟨position i, Shuffle.shuffledIndex_eq_ok lottery.seed lottery.rounds hfits
    ⟨i % lottery.candidates.size, Nat.mod_lt i hsome⟩, rfl⟩

theorem acceptable_iff {balance : Gwei} (hknown : lottery.balances (candidate i) = some balance) :
    acceptable balance lottery.ceiling (lottery.width.valueAt (lottery.digestAt i) i)
      lottery.width.maxValue = true ↔ lottery.AcceptableAt candidate i := by
  simp [acceptable, AcceptableAt, hknown, drawnValue, DrawWidth.toNat_valueAt]

/-- A candidate who has at least the ceiling is acceptable whatever value is drawn. -/
theorem acceptableAt_of_full {balance : Gwei}
    (hknown : lottery.balances (candidate i) = some balance) (hfull : lottery.ceiling ≤ balance) :
    lottery.AcceptableAt candidate i := by
  have hvalue := lottery.width.toNat_valueAt_le (lottery.digestAt i) i
  rw [DrawWidth.toNat_valueAt] at hvalue
  exact ⟨balance, hknown, Nat.mul_le_mul (UInt64.le_iff_toNat_le.1 hfull) hvalue⟩

theorem settledAt_eq_none_iff : lottery.settledAt candidate i = none ↔
    (∃ balance, lottery.balances (candidate i) = some balance) ∧
      ¬ lottery.AcceptableAt candidate i := by
  cases hbalance : lottery.balances (candidate i) with
  | none => simp [settledAt, hbalance]
  | some balance => simp [settledAt, hbalance, ← acceptable_iff hbalance]

theorem settledAt_eq_ok_iff {draw : ProposerDraw} :
    lottery.settledAt candidate i = some (.ok draw) ↔
      lottery.AcceptableAt candidate i ∧ draw = lottery.drawAt candidate i := by
  have hdraw : lottery.drawAt candidate i = draw ↔ draw = lottery.drawAt candidate i := eq_comm
  cases hbalance : lottery.balances (candidate i) with
  | none => simp [settledAt, hbalance, AcceptableAt]
  | some balance => simp [settledAt, hbalance, ← acceptable_iff hbalance, hdraw]

theorem settledAt_eq_error_iff {cause : DutyError} :
    lottery.settledAt candidate i = some (.error cause) ↔
      lottery.balances (candidate i) = none ∧ cause = .unknownValidator (candidate i) := by
  cases hbalance : lottery.balances (candidate i) with
  | none => simp [settledAt, hbalance, eq_comm]
  | some balance => simp [settledAt, hbalance]

/-! ## The search -/

/-- The digest a search brings to a visit: any at the first visit of a block, later the block's. -/
def CarriesDigest (lottery : ProposerLottery) (i : Nat) (block : Bytes 32) : Prop :=
  i % lottery.width.valuesPerBlock ≠ 0 → block = lottery.digestAt i

theorem carriesDigest_zero (lottery : ProposerLottery) (block : Bytes 32) :
    lottery.CarriesDigest 0 block := by
  intro hinside
  exact (hinside (Nat.zero_mod _)).elim

/-- The digest of a visit is that of the next one, unless that starts a block. -/
theorem carriesDigest_succ (lottery : ProposerLottery) (i : Nat) :
    lottery.CarriesDigest (i + 1) (lottery.digestAt i) := by
  intro hinside
  have hblock : (i + 1) / lottery.width.valuesPerBlock = i / lottery.width.valuesPerBlock :=
    Nat.succ_div_of_not_dvd fun hdvd => hinside (Nat.mod_eq_zero_of_dvd hdvd)
  rw [digestAt, digestAt, hblock]

/-- One visit ends the search with what it settles, or leaves it to the next one with its digest. -/
theorem searchFrom_step (hvisits : lottery.Visits candidate) (hlimit : i < visitLimit)
    (hcarries : lottery.CarriesDigest i block) :
    lottery.searchFrom i block =
      (lottery.settledAt candidate i).getD
        (lottery.searchFrom (i + 1) (lottery.digestAt i)) := by
  rcases hvisits i with ⟨position, hposition, hcandidate⟩
  have hread : lottery.candidates.getD position.val 0 = candidate i := by
    simp [hcandidate]
  have hdigest : (if i % lottery.width.valuesPerBlock = 0
      then Sha256.hash (blockInput lottery.seed (i / lottery.width.valuesPerBlock))
      else block) = lottery.digestAt i := by
    by_cases hfresh : i % lottery.width.valuesPerBlock = 0
    · rw [if_pos hfresh]
      rfl
    · rw [if_neg hfresh, hcarries hfresh]
  rw [searchFrom, if_pos hlimit]
  simp only [hposition, hread, hdigest]
  cases hbalance : lottery.balances (candidate i) with
  | none => simp [settledAt, hbalance]
  | some balance =>
    simp only [settledAt, hbalance]
    split
    · rfl
    · rfl

/-- Visits that settle nothing bring the search to the next one with a digest it can go on from. -/
theorem searchFrom_skip (hvisits : lottery.Visits candidate) (hlimit : i ≤ visitLimit)
    (hnone : ∀ j < i, lottery.settledAt candidate j = none) (block : Bytes 32) :
    ∃ carried, lottery.CarriesDigest i carried ∧
      lottery.searchFrom 0 block = lottery.searchFrom i carried := by
  induction i with
  | zero => exact ⟨block, carriesDigest_zero lottery block, rfl⟩
  | succ i ih =>
    have hgo : lottery.settledAt candidate i = none := hnone i (Nat.lt_succ_self i)
    rcases ih (Nat.le_of_succ_le hlimit) (fun j hj => hnone j (Nat.lt_succ_of_lt hj)) with
      ⟨carried, hcarries, hskip⟩
    refine ⟨lottery.digestAt i, carriesDigest_succ lottery i, ?_⟩
    rw [hskip, searchFrom_step hvisits hlimit hcarries, hgo]
    rfl

theorem draw_eq_searchFrom (hsome : 0 < lottery.candidates.size) :
    lottery.draw = lottery.searchFrom 0 zeroHash := by
  have hfull : ¬ lottery.candidates.isEmpty := by
    simpa using Nat.ne_of_gt hsome
  simp [draw, hfull]

/-- A draw ends as its first visit that settles something says. -/
theorem draw_of_first (hsome : 0 < lottery.candidates.size) (hvisits : lottery.Visits candidate)
    (hlimit : last < visitLimit) (hlast : lottery.settledAt candidate last = some result)
    (hfirst : ∀ j < last, lottery.settledAt candidate j = none) : lottery.draw = result := by
  rcases searchFrom_skip hvisits hlimit.le hfirst zeroHash with ⟨carried, hcarries, hskip⟩
  rw [draw_eq_searchFrom hsome, hskip, searchFrom_step hvisits hlimit hcarries, hlast]
  rfl

theorem draw_of_none (hsome : 0 < lottery.candidates.size) (hvisits : lottery.Visits candidate)
    (hnone : ∀ j < visitLimit, lottery.settledAt candidate j = none) :
    lottery.draw = .error .drawsExhausted := by
  rcases searchFrom_skip hvisits (Nat.le_refl _) hnone zeroHash with ⟨carried, _, hskip⟩
  rw [draw_eq_searchFrom hsome, hskip, searchFrom, if_neg (Nat.lt_irrefl _)]

theorem exists_first_settled (hsettled : lottery.settledAt candidate i ≠ none) :
    ∃ last ≤ i, ∃ result, lottery.settledAt candidate last = some result ∧
      ∀ j < last, lottery.settledAt candidate j = none := by
  classical
  have hexists : ∃ last, lottery.settledAt candidate last ≠ none := ⟨i, hsettled⟩
  rcases Option.ne_none_iff_exists'.1 (Nat.find_spec hexists) with ⟨result, hresult⟩
  refine ⟨Nat.find hexists, Nat.find_min' hexists hsettled, result, hresult, ?_⟩
  intro j hj
  by_contra hearlier
  exact Nat.find_min hexists hj hearlier

/-- A draw has a first visit that settles it, or else runs out of numbers. -/
theorem draw_cases (hsome : 0 < lottery.candidates.size) (hvisits : lottery.Visits candidate) :
    (∃ last < visitLimit, lottery.settledAt candidate last = some lottery.draw ∧
      ∀ j < last, lottery.settledAt candidate j = none) ∨
    lottery.draw = .error .drawsExhausted := by
  by_cases hsettled : ∃ i < visitLimit, lottery.settledAt candidate i ≠ none
  · rcases hsettled with ⟨i, hlimit, hsettled⟩
    rcases exists_first_settled hsettled with ⟨last, hle, result, hresult, hfirst⟩
    have hlimit' : last < visitLimit := hle.trans_lt hlimit
    refine .inl ⟨last, hlimit', ?_, hfirst⟩
    rw [draw_of_first hsome hvisits hlimit' hresult hfirst, hresult]
  · right
    apply draw_of_none hsome hvisits
    intro j hj
    by_contra hstop
    exact hsettled ⟨j, hj, hstop⟩

/-! ## Draws -/

/-- A visit that is numbered is reported with its own number, value and candidate. -/
theorem eq_drawAt_iff (hlimit : i < visitLimit) {draw : ProposerDraw} :
    draw = lottery.drawAt candidate i ↔
      draw.index = candidate i ∧ draw.iteration.toNat = i ∧
        draw.randomValue.toNat = lottery.drawnValue i ∧
        draw.maxRandomValue = lottery.width.maxValue := by
  have hnumber : (UInt64.ofNat i).toNat = i := UInt64.toNat_ofNat_of_lt' hlimit
  have hvalue := lottery.width.toNat_valueAt (lottery.digestAt i) i
  cases draw with
  | mk index iteration randomValue maxRandomValue =>
    simp only [drawAt, ProposerDraw.mk.injEq, drawnValue, ← UInt64.toNat_inj, hnumber, hvalue]

/-- What an acceptable visit reports passes the check for a rightly accepted one. -/
theorem isAcceptable_drawAt {balance : Gwei}
    (hknown : lottery.balances (candidate i) = some balance)
    (haccepted : lottery.AcceptableAt candidate i) :
    (lottery.drawAt candidate i).isAcceptable balance lottery.ceiling = true := by
  have hvalue := lottery.width.toNat_valueAt_le (lottery.digestAt i) i
  have htest := (acceptable_iff hknown).2 haccepted
  simp [ProposerDraw.isAcceptable, drawAt, htest, UInt64.le_iff_toNat_le, hvalue]

theorem draw_eq_ok_iff (hsome : 0 < lottery.candidates.size) (hvisits : lottery.Visits candidate)
    {draw : ProposerDraw} : lottery.draw = .ok draw ↔
      ∃ last < visitLimit, IsLeast {j | lottery.AcceptableAt candidate j} last ∧
        (∀ j ≤ last, ∃ balance, lottery.balances (candidate j) = some balance) ∧
        draw = lottery.drawAt candidate last := by
  constructor
  · intro hdraw
    rcases draw_cases hsome hvisits with ⟨last, hlimit, hlast, hfirst⟩ | hexhausted
    · rw [hdraw] at hlast
      rcases settledAt_eq_ok_iff.1 hlast with ⟨haccepted, rfl⟩
      refine ⟨last, hlimit, ⟨haccepted, ?_⟩, ?_, rfl⟩
      · intro j hj
        by_contra hlt
        exact (settledAt_eq_none_iff.1 (hfirst j (Nat.not_le.1 hlt))).2 hj
      · intro j hj
        rcases Nat.lt_or_eq_of_le hj with hlt | rfl
        · exact (settledAt_eq_none_iff.1 (hfirst j hlt)).1
        · exact haccepted.imp fun _ hbalance => hbalance.1
    · rw [hdraw] at hexhausted
      cases hexhausted
  · rintro ⟨last, hlimit, ⟨haccepted, hleast⟩, hknown, rfl⟩
    refine draw_of_first hsome hvisits hlimit (settledAt_eq_ok_iff.2 ⟨haccepted, rfl⟩) ?_
    intro j hj
    refine settledAt_eq_none_iff.2 ⟨hknown j hj.le, ?_⟩
    intro haccepted'
    exact Nat.not_le.2 hj (hleast haccepted')

theorem draw_eq_unknown_iff (hsome : 0 < lottery.candidates.size)
    (hvisits : lottery.Visits candidate) {validator : ValidatorIndex} :
    lottery.draw = .error (.unknownValidator validator) ↔
      ∃ last < visitLimit, candidate last = validator ∧ lottery.balances validator = none ∧
        ∀ j < last, (∃ balance, lottery.balances (candidate j) = some balance) ∧
          ¬ lottery.AcceptableAt candidate j := by
  constructor
  · intro hdraw
    rcases draw_cases hsome hvisits with ⟨last, hlimit, hlast, hfirst⟩ | hexhausted
    · rw [hdraw] at hlast
      rcases settledAt_eq_error_iff.1 hlast with ⟨hunknown, hcause⟩
      cases hcause
      exact ⟨last, hlimit, rfl, hunknown, fun j hj => settledAt_eq_none_iff.1 (hfirst j hj)⟩
    · rw [hdraw] at hexhausted
      cases hexhausted
  · rintro ⟨last, hlimit, rfl, hunknown, hbefore⟩
    exact draw_of_first hsome hvisits hlimit (settledAt_eq_error_iff.2 ⟨hunknown, rfl⟩)
      fun j hj => settledAt_eq_none_iff.2 (hbefore j hj)

/-- A draw among one up to `2 ^ 40` candidates succeeds just if some visit below `2 ^ 64` is the
first acceptable one and all candidates up to it are known.  It then reports this visit, rightly
accepted.  It fails for an unknown candidate just if no visit before the first one of an unknown
candidate is acceptable. -/
theorem draw_iff_first_visit (lottery : ProposerLottery) (hsome : 1 ≤ lottery.candidates.size)
    (hfits : lottery.candidates.size ≤ 2 ^ 40) :
    ∃ candidate, lottery.Visits candidate ∧
      (∀ draw, lottery.draw = .ok draw ↔
        ∃ i < 2 ^ 64, IsLeast {j | lottery.AcceptableAt candidate j} i ∧
          (∀ j ≤ i, ∃ balance, lottery.balances (candidate j) = some balance) ∧
          draw.index = candidate i ∧ draw.iteration.toNat = i ∧
          draw.randomValue.toNat = lottery.drawnValue i ∧
          draw.maxRandomValue = lottery.width.maxValue) ∧
      (∀ draw, lottery.draw = .ok draw → ∃ balance,
        lottery.balances draw.index = some balance ∧
          draw.isAcceptable balance lottery.ceiling = true) ∧
      ∀ validator, lottery.draw = .error (.unknownValidator validator) ↔
        ∃ i < 2 ^ 64, candidate i = validator ∧ lottery.balances validator = none ∧
          ∀ j < i, (∃ balance, lottery.balances (candidate j) = some balance) ∧
            ¬ lottery.AcceptableAt candidate j := by
  rw [← maxListSize_eq_two_pow] at hfits
  rcases exists_visits hsome hfits with ⟨candidate, hvisits⟩
  refine ⟨candidate, hvisits, ?_, ?_, fun validator => draw_eq_unknown_iff hsome hvisits⟩
  · intro draw
    rw [draw_eq_ok_iff hsome hvisits]
    constructor
    · rintro ⟨i, hlimit, hleast, hknown, hdraw⟩
      exact ⟨i, hlimit, hleast, hknown, (eq_drawAt_iff hlimit).1 hdraw⟩
    · rintro ⟨i, hlimit, hleast, hknown, hdraw⟩
      exact ⟨i, hlimit, hleast, hknown, (eq_drawAt_iff hlimit).2 hdraw⟩
  · intro draw hdraw
    rcases (draw_eq_ok_iff hsome hvisits).1 hdraw with ⟨i, _, hleast, hknown, rfl⟩
    rcases hknown i (Nat.le_refl i) with ⟨balance, hbalance⟩
    exact ⟨balance, hbalance, isAcceptable_drawAt hbalance hleast.1⟩

/-- Two candidates of whom nothing is known, and the same two with all the stake that counts. -/
theorem draw_iff_first_visit_two :
    let unknown : ProposerLottery := ⟨#[7, 7], zeroHash, fun _ => none, 32, 1, .twoBytes⟩
    let full : ProposerLottery := ⟨#[7, 7], zeroHash, fun _ => some 32, 32, 1, .twoBytes⟩
    (1 ≤ #[7, 7].size ∧ #[7, 7].size ≤ 2 ^ 40) ∧
      unknown.draw = .error (.unknownValidator 7) ∧
      ∃ draw, full.draw = .ok draw ∧ draw.index = 7 ∧ draw.iteration.toNat = 0 := by
  intro unknown full
  have hsome : 1 ≤ #[7, 7].size := by decide
  have hfits : #[7, 7].size ≤ 2 ^ 40 := by decide
  have hseven : ∀ position : Fin 2, (#[7, 7] : Array ValidatorIndex)[position] = 7 := by decide
  refine ⟨⟨hsome, hfits⟩, ?_, ?_⟩
  · rcases draw_iff_first_visit unknown hsome hfits with ⟨candidate, hvisits, _, _, hunknown⟩
    rcases hvisits 0 with ⟨position, _, hcandidate⟩
    have hzero : candidate 0 = 7 := hcandidate.trans (hseven position)
    exact (hunknown 7).2 ⟨0, by decide, hzero, rfl, by simp⟩
  · rcases draw_iff_first_visit full hsome hfits with ⟨candidate, hvisits, hok, _⟩
    rcases hvisits 0 with ⟨position, _, hcandidate⟩
    have hzero : candidate 0 = 7 := hcandidate.trans (hseven position)
    have haccepted : full.AcceptableAt candidate 0 := acceptableAt_of_full rfl (UInt64.le_refl 32)
    have hleast : IsLeast {j | full.AcceptableAt candidate j} 0 :=
      ⟨haccepted, fun j _ => Nat.zero_le j⟩
    have hlimit : 0 < visitLimit := by decide
    have hdraw := (eq_drawAt_iff hlimit).1 (Eq.refl (full.drawAt candidate 0))
    exact ⟨full.drawAt candidate 0, (hok _).2 ⟨0, by decide, hleast, fun _ _ => ⟨32, rfl⟩, hdraw⟩,
      hzero, rfl⟩

end ProposerLottery

end BeaconDuties
