import BeaconDuties.Event
import BeaconDuties.Sha256

/-!
# Shuffle — the swap-or-not permutation, one position at a time

A shuffle of `count` positions runs through numbered rounds. Each round draws a pivot from the
seed, pairs every position `x` with its reflection `pivot - x` modulo `count`, and asks one
pseudorandom bit per pair whether the two change places. Both members of a pair ask the same bit,
the one of the larger position, so a round is a permutation and its own inverse.

* `Shuffle.pivot`, `Shuffle.source`, `Shuffle.sourceBit` — what a round draws from the seed;
* `Shuffle.swapOrNot` — where one round takes a position, for any pivot and any bits;
* `Shuffle.shuffledIndex` — where all rounds take a position, in ascending order;
* `Shuffle.mapping` — where they take every position.

The hash inputs are the seed and the round for a pivot, and the seed, the round and the number of a
window of 256 positions in four bytes for the bits of that window.
-/

namespace BeaconDuties

namespace Shuffle

/-! ## What a round draws -/

def pivotInput (seed : Seed) (round : UInt8) : Array UInt8 :=
  seed.toArray.push round

/-- The hash input of the bits of one window in one round. -/
def sourceInput (seed : Seed) (round : UInt8) (window : Nat) : Array UInt8 :=
  seed.toArray.push round ++ (Bytes.littleEndian 4 window).toArray

/-- The pivot of a round: the first eight bytes of its digest, modulo the number of positions. -/
def pivot (seed : Seed) (round : UInt8) (count : Nat) : Nat :=
  (Bytes.leading (Sha256.hash (pivotInput seed round)) 8).toNatLE % count

/-- The 256 bits of a window in one round. -/
def source (seed : Seed) (round : UInt8) (window : Nat) : Bytes 32 :=
  Sha256.hash (sourceInput seed round window)

/-- One of the 256 bits of a window, the lowest bit of each byte first. -/
def sourceBit (block : Bytes 32) (bit : Fin 256) : Bool :=
  block[bit.val / 8].toNat.testBit (bit.val % 8)

/-- The bit of a position, given the bits of its window. -/
def windowBit (block : Bytes 32) (position : Nat) : Bool :=
  sourceBit block (Fin.ofNat 256 position)

def positionBit (seed : Seed) (round : UInt8) (position : Nat) : Bool :=
  windowBit (source seed round (position / 256)) position

def roundNumbers (rounds : UInt8) : List UInt8 :=
  (List.range rounds.toNat).map UInt8.ofNat

/-! ## One position -/

/-- The position paired with `position` in a round. -/
def reflect (pivot count position : Nat) : Nat :=
  -- The size comes in first: a natural difference would stop at zero.
  (pivot + count - position) % count

/-- Where a round with the given pivot and bits takes a position. -/
def swapOrNot (bit : Nat → Bool) (pivot count position : Nat) : Nat :=
  let paired := reflect pivot count position
  -- Both members of a pair look at the bit of the larger one, so they agree.
  if bit (max position paired) then paired else position

def roundStep (seed : Seed) (count position : Nat) (round : UInt8) : Nat :=
  swapOrNot (positionBit seed round) (pivot seed round count) count position

/-- Refuses lists whose windows four bytes cannot name. -/
def checkListSize (size : Nat) : Except DutyError Unit :=
  if maxListSize < size then .error (.invalidArgument (.listTooLong size)) else .ok ()

/-- Where the shuffle takes a position: position `index` of a shuffled list of `count` entries
holds the entry that stood at the answer. -/
def shuffledIndex (index count : Nat) (seed : Seed) (rounds : UInt8) : Except DutyError Nat :=
  -- The position is looked at before the size is.
  if count ≤ index then .error (.indexOutOfRange index count)
  else (checkListSize count).map fun _ => (roundNumbers rounds).foldl (roundStep seed count) index

def mapping (count : Nat) (seed : Seed) (rounds : UInt8) : Except DutyError (List Nat) :=
  (checkListSize count).bind fun _ =>
    (List.range count).mapM fun index => shuffledIndex index count seed rounds

end Shuffle

end BeaconDuties
