import BeaconDuties.Balances
import BeaconDuties.Shuffle.Basic

/-!
# Proposer — choosing a proposer in proportion to stake

Candidates are visited in shuffled order, over and over. Each visit draws a pseudorandom value and
accepts the candidate if the value, as a fraction of the largest one, is at most the candidate's
balance as a fraction of the ceiling. The first acceptable visit wins.

* `DrawWidth` — values of one byte, or of two bytes lowest first;
* `ProposerDraw` — the visit that won;
* `ProposerDraw.Acceptable` and `acceptable` — the test, in exact arithmetic;
* `ProposerLottery` — everything a choice depends on;
* `ProposerLottery.draw`, `ProposerLottery.proposer` — the choice.

Visits are numbered below `2 ^ 64`. One digest holds the values of several visits in a row, so the
search carries it along and draws it afresh when its values are used up.
-/

namespace BeaconDuties

/-! ## Draws -/

inductive DrawWidth where
  | byte
  | twoBytes
  deriving DecidableEq, Repr

namespace DrawWidth

def valuesPerBlock : DrawWidth → Nat
  | byte => 32
  | twoBytes => 16

def maxValue : DrawWidth → UInt64
  | byte => 255
  | twoBytes => 65535

/-- The value that a visit reads from its digest. -/
def valueAt (width : DrawWidth) (block : Bytes 32) (iteration : Nat) : UInt64 :=
  match width with
  | byte => block[iteration % 32].toUInt64
  | twoBytes =>
    block[2 * (iteration % 16)].toUInt64 + 256 * block[2 * (iteration % 16) + 1].toUInt64

end DrawWidth

/-- The visit that won: whom it chose, its number, its value, and the largest possible value. -/
structure ProposerDraw where
  index : ValidatorIndex
  iteration : UInt64
  randomValue : UInt64
  maxRandomValue : UInt64
  deriving DecidableEq, Repr

/-- Whether a value is small enough for a balance: `balance / ceiling ≥ value / maxValue`. -/
def acceptable (balance ceiling : Gwei) (value maxValue : UInt64) : Bool :=
  ceiling.toNat * value.toNat ≤ balance.toNat * maxValue.toNat

/-- Whether a visit was rightly accepted: its value is a possible one and is small enough. -/
def ProposerDraw.isAcceptable (draw : ProposerDraw) (balance ceiling : Gwei) : Bool :=
  draw.randomValue ≤ draw.maxRandomValue &&
    acceptable balance ceiling draw.randomValue draw.maxRandomValue

/-! ## The search -/

structure ProposerLottery where
  candidates : Array ValidatorIndex
  seed : Seed
  balances : BalanceLookup
  ceiling : Gwei
  rounds : UInt8
  width : DrawWidth

namespace ProposerLottery

/-- The number of visits that a word can number. -/
def visitLimit : Nat := UInt64.size

/-- The hash input of the `k`-th digest of values. -/
def blockInput (seed : Seed) (k : Nat) : Array UInt8 :=
  seed.toArray ++ (Bytes.littleEndian 8 k).toArray

variable (lottery : ProposerLottery)

/-- The first acceptable visit from `iteration` on, given the digest of the visit before. -/
def searchFrom (iteration : Nat) (block : Bytes 32) : Except DutyError ProposerDraw :=
  if iteration < visitLimit then
    -- After the last candidate the first one is visited again, with a new value.
    let total := lottery.candidates.size
    match Shuffle.shuffledIndex (iteration % total) total lottery.seed lottery.rounds with
    | .error cause => .error cause
    | .ok position =>
      let candidate := lottery.candidates.getD position 0
      let perBlock := lottery.width.valuesPerBlock
      -- The first visit of a block draws the digest that those after it read.
      let block :=
        if iteration % perBlock = 0 then
          Sha256.hash (blockInput lottery.seed (iteration / perBlock))
        else block
      let value := lottery.width.valueAt block iteration
      match lottery.balances candidate with
      | none => .error (.unknownValidator candidate)
      | some balance =>
        if acceptable balance lottery.ceiling value lottery.width.maxValue then
          .ok ⟨candidate, UInt64.ofNat iteration, value, lottery.width.maxValue⟩
        else searchFrom (iteration + 1) block
  else .error .drawsExhausted
termination_by visitLimit - iteration

/-- The visit that wins. -/
def draw : Except DutyError ProposerDraw :=
  if lottery.candidates.isEmpty then .error .emptyCandidates else lottery.searchFrom 0 zeroHash

def drawReported : Reported (Except DutyError ProposerDraw) :=
  Reported.onSuccess lottery.draw fun draw =>
    .proposerSelected draw.index (draw.iteration.toNat + 1)

def proposerReported : Reported (Except DutyError ValidatorIndex) :=
  (·.map ProposerDraw.index) <$> lottery.drawReported

end ProposerLottery

end BeaconDuties
