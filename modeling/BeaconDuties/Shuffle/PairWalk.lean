import BeaconDuties.Shuffle.Basic

/-!
# PairWalk — shuffling a whole list in place

A whole list is shuffled by running the rounds backwards and swapping the members of each pair where
they stand. Within a round the pairs are visited from one axis of the reflection to the other: first
the pairs around half the pivot, whose larger member climbs towards the pivot, then the pairs around
half of pivot plus size, whose larger member descends towards the second axis. The bits of 256
positions come from one digest, so the digest is drawn afresh only when the larger member enters
another window.

* `Shuffle.walkSteps`, `Shuffle.partner`, `Shuffle.larger` — the pairs of a round;
* `Shuffle.WalkState`, `Shuffle.walkStep` — one pair: refresh the digest if needed, then swap;
* `Shuffle.walkRound`, `Shuffle.walkRounds` — one round, and all of them;
* `Shuffle.shuffleInPlace` — the walk of all rounds over a list, which it leaves read through
  `Shuffle.shuffledIndex`;
* `Shuffle.shuffled` — the same for a copy of the list.
-/

namespace BeaconDuties

namespace Shuffle

/-! ## The pairs of a round -/

/-- The first step of a round's walk: just past half the pivot. -/
def walkStart (pivot : Nat) : Nat :=
  -- Half of an even pivot is its own partner and is left out.
  (pivot + 2) / 2

/-- The steps of a round's walk, up to half of pivot plus size. -/
def walkSteps (pivot size : Nat) : List Nat :=
  List.range' (walkStart pivot) ((pivot + size) / 2 + 1 - walkStart pivot)

/-- The position paired with a step of the walk. -/
def partner (pivot size step : Nat) : Nat :=
  if step ≤ pivot then pivot - step else pivot + size - step

/-- The larger position of the pair: the step itself up to the pivot, its partner from there. -/
def larger (pivot size step : Nat) : Nat :=
  if step ≤ pivot then step else partner pivot size step

/-- Whether a step enters a window, as the first step of each half does in any case. -/
def entersWindow (pivot size step : Nat) : Bool :=
  -- The larger position climbs up to the pivot and descends from there, so it enters a window at
  -- that window's lowest or highest position.
  if step ≤ pivot then
    larger pivot size step % 256 == 0 || step == walkStart pivot
  else
    larger pivot size step % 256 == 255 || step == pivot + 1

/-! ## Walking -/

/-- What a walk carries from pair to pair: the list and the digest of the current window. -/
structure WalkState (α : Type) where
  items : Array α
  block : Bytes 32

variable {α : Type}

/-- The digest a step reads its bit from. -/
def blockAt (seed : Seed) (round : UInt8) (pivot size step : Nat) (block : Bytes 32) : Bytes 32 :=
  if entersWindow pivot size step then source seed round (larger pivot size step / 256) else block

/-- One pair of the walk: its members change places if the bit of the larger one is set. -/
def walkStep (seed : Seed) (round : UInt8) (pivot size : Nat) (state : WalkState α) (step : Nat) :
    WalkState α :=
  let block := blockAt seed round pivot size step state.block
  if windowBit block (larger pivot size step) then
    ⟨state.items.swapIfInBounds step (partner pivot size step), block⟩
  else ⟨state.items, block⟩

def walkRound (seed : Seed) (items : Array α) (round : UInt8) : Array α :=
  let size := items.size
  let pivot := pivot seed round size
  -- The first step draws a digest, so the zeros are never read.
  ((walkSteps pivot size).foldl (walkStep seed round pivot size) ⟨items, zeroHash⟩).items

/-! ## All rounds -/

/-- Every round over the whole list, the last one first. -/
def walkRounds (seed : Seed) (items : Array α) (rounds : UInt8) : Array α :=
  (roundNumbers rounds).reverse.foldl (walkRound seed) items

/-- Shuffles a list where it stands: how that ends, and the list as it then stands. An empty list
is its own shuffle, and a list that is too long is left alone. -/
def shuffleInPlace (items : Array α) (seed : Seed) (rounds : UInt8) :
    Except DutyError Unit × Array α :=
  if items.isEmpty then (.ok (), items)
  else
    match checkListSize items.size with
    | .error cause => (.error cause, items)
    | .ok () => (.ok (), walkRounds seed items rounds)

def shuffled (items : Array α) (seed : Seed) (rounds : UInt8) : Except DutyError (Array α) :=
  let (outcome, items) := shuffleInPlace items seed rounds
  outcome.map fun _ => items

/-- The shuffled list, reported unless there was nothing to shuffle. -/
def shuffledReported (items : Array α) (seed : Seed) (rounds : UInt8) :
    Reported (Except DutyError (Array α)) :=
  if items.isEmpty then pure (shuffled items seed rounds)
  else Reported.onSuccess (shuffled items seed rounds) fun _ => .listShuffled items.size rounds

end Shuffle

end BeaconDuties
