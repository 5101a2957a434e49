import BeaconDuties.Bytes

/-!
# Primitives — the numbers and byte strings of the beacon chain

Quantities that are stored on chain are 64-bit words; positions in a list and sizes of lists are
natural numbers. This file fixes:

* the words `Slot`, `Epoch`, `Gwei`, `ValidatorIndex`, `SubnetId`;
* the byte strings `Seed`, `Root`, `Domain`, `Version`, `DomainType`, `ForkDigest`, and the blob
  commitments and proofs;
* `NodeId`, a 256-bit number;
* the constants every other module shares.
-/

namespace BeaconDuties

/-! ## Words -/

abbrev Slot := UInt64

abbrev Epoch := UInt64

abbrev Gwei := UInt64

/-- The name of a validator: its position in the chain's registry. -/
abbrev ValidatorIndex := UInt64

abbrev SubnetId := UInt64

abbrev NodeId := BitVec 256

/-! ## Byte strings -/

/-- The key of a shuffle or of a proposer draw. -/
abbrev Seed := Bytes 32

abbrev Root := Bytes 32

/-- What a signature is bound to, besides the signed object. -/
abbrev Domain := Bytes 32

abbrev Version := Bytes 4

abbrev DomainType := Bytes 4

/-- The short name of a fork on a given chain. -/
abbrev ForkDigest := Bytes 4

abbrev KzgCommitment := Bytes 48

/-- A proof that a commitment belongs to a blob. -/
abbrev KzgProof := Bytes 48

/-- The hash by which a block names a blob commitment. -/
abbrev VersionedHash := Bytes 32

/-! ## Constants -/

def version : String := "0.1.0"

def nodeIdBits : Nat := 256

def genesisSlot : Slot := 0

/-- The epoch that stands for "not scheduled": the largest word. -/
def farFutureEpoch : Epoch := 0xffffffffffffffff

/-- The longest list that can be shuffled: its positions, cut into windows of 256, number as many
as four bytes can name. -/
def maxListSize : Nat := 256 * UInt32.size

def zeroHash : Bytes 32 := Bytes.zero 32

end BeaconDuties
