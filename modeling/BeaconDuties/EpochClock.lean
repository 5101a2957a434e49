import BeaconDuties.Error
import BeaconDuties.Saturating

/-!
# EpochClock — slots, epochs and seconds

Time passes in slots of equal length, and a fixed number of slots makes an epoch. Divisions round
down; sums and products saturate, so no answer ever wraps.

* `EpochClock` — slots per epoch and seconds per slot, both positive, and the seed lookahead;
* `EpochClock.ofParts` — the clock of three numbers, if it has one;
* `epochAt`, `startSlot`, `endSlot` — between slots and epochs;
* `slotAtTime`, `timeAtSlot` — between slots and seconds;
* `crossesBoundary` — whether a block is the first past a multiple of `n` epochs;
* `activationExitEpoch`, `earliestCommitteeSlot`, `earliestCommitteeSlotAt` — derived moments.
-/

namespace BeaconDuties

structure EpochClock where
  slotsPerEpoch : UInt64
  secondsPerSlot : UInt64
  maxSeedLookahead : Epoch
  slots_pos : 0 < slotsPerEpoch
  seconds_pos : 0 < secondsPerSlot

namespace EpochClock

/-- The clock of three numbers, refusing epochs without slots and then slots without duration. -/
def ofParts (slotsPerEpoch secondsPerSlot : UInt64) (maxSeedLookahead : Epoch) :
    Except DutyError EpochClock :=
  if slots_pos : 0 < slotsPerEpoch then
    if seconds_pos : 0 < secondsPerSlot then
      .ok ⟨slotsPerEpoch, secondsPerSlot, maxSeedLookahead, slots_pos, seconds_pos⟩
    else .error (.invalidArgument .noSeconds)
  else .error (.invalidArgument .noSlots)

variable (clock : EpochClock)

theorem toNat_slotsPerEpoch_pos : 0 < clock.slotsPerEpoch.toNat :=
  UInt64.lt_iff_toNat_lt.1 clock.slots_pos

theorem toNat_secondsPerSlot_pos : 0 < clock.secondsPerSlot.toNat :=
  UInt64.lt_iff_toNat_lt.1 clock.seconds_pos

/-! ## Slots and epochs -/

def epochAt (slot : Slot) : Epoch :=
  slot / clock.slotsPerEpoch

def startSlot (epoch : Epoch) : Slot :=
  Saturating.mul epoch clock.slotsPerEpoch

theorem toNat_startSlot_of_le {epoch : Epoch}
    (fits : epoch.toNat * clock.slotsPerEpoch.toNat ≤ Saturating.maxWord) :
    (clock.startSlot epoch).toNat = epoch.toNat * clock.slotsPerEpoch.toNat :=
  Saturating.toNat_mul_of_le fits

def endSlot (epoch : Epoch) : Slot :=
  Saturating.add (clock.startSlot epoch) (clock.slotsPerEpoch - 1)

/-! ## Slots and seconds -/

/-- The slot at a time; before genesis it is the first one. -/
def slotAtTime (genesisTime time : UInt64) : Slot :=
  Saturating.sub time genesisTime / clock.secondsPerSlot

def timeAtSlot (genesisTime : UInt64) (slot : Slot) : UInt64 :=
  Saturating.add genesisTime
    (Saturating.mul (Saturating.sub slot genesisSlot) clock.secondsPerSlot)

/-! ## Derived moments -/

/-- Whether a multiple of `n` epochs lies after the parent's slot and not after the block's. -/
def crossesBoundary (blockSlot parentSlot : Slot) (n : UInt64) : Except DutyError Bool :=
  if n = 0 then .error (.invalidArgument .noEpochs)
  else .ok (decide (clock.epochAt parentSlot / n < clock.epochAt blockSlot / n))

/-- The epoch in which an activation or exit that starts now takes effect. -/
def activationExitEpoch (epoch : Epoch) : Epoch :=
  Saturating.add (Saturating.add epoch 1) clock.maxSeedLookahead

/-- The first slot from which the committees of an epoch are known: the start of the one before. -/
def earliestCommitteeSlot (epoch : Epoch) : Slot :=
  -- No epoch comes before the first one, whose committees are known from the start.
  clock.startSlot (if 0 < epoch then epoch - 1 else epoch)

/-- The first slot from which the committees of a slot are known. -/
def earliestCommitteeSlotAt (slot : Slot) : Slot :=
  clock.earliestCommitteeSlot (clock.epochAt slot)

end EpochClock

end BeaconDuties
