import BeaconDuties.Primitives
import BeaconDuties.Sha256

/-!
# MerkleTree — roots of byte strings and of small containers

A byte string is cut into chunks of 32 bytes, the last one filled up with zeros, and the chunks are
the leaves of a full binary tree whose missing leaves are zero chunks. A node is the digest of its
two children.

* `MerkleTree.node` — the parent of two roots;
* `MerkleTree.rootOfChunks` — the root over the leaves of a tree of a given depth;
* `MerkleTree.rootOfBytes` — the root of a byte string;
* `Signable`, `Signable.root` — the values that can be signed, and their roots;
* `Signable.encoding` — their bytes.
-/

namespace BeaconDuties

namespace MerkleTree

def node (left right : Root) : Root :=
  Sha256.hash (left.toArray ++ right.toArray)

/-- At most 32 bytes, filled up with zeros. -/
def leaf {n : Nat} (bytes : Bytes n) : Root :=
  Vector.ofFn fun i => bytes.toArray.getD i.val 0

/-- The root of a tree of the given depth over leaves, as far as they go, and zero leaves. -/
def rootOfChunks : (depth : Nat) → List Root → Root
  | 0, chunks => chunks.headD zeroHash
  -- The left half is filled first, and the right half may be left with nothing.
  | depth + 1, chunks =>
    node (rootOfChunks depth (chunks.take (1 <<< depth)))
      (rootOfChunks depth (chunks.drop (1 <<< depth)))

def chunks (bytes : Array UInt8) : List Root :=
  (List.range ((bytes.size + 31) / 32)).map fun chunk =>
    Vector.ofFn fun i => bytes.getD (32 * chunk + i.val) 0

/-- The least depth of a tree with the given number of leaves. -/
def depthFor (leaves : Nat) : Nat :=
  if leaves ≤ 1 then 0 else (leaves - 1).log2 + 1

def rootOfBytes (bytes : Array UInt8) : Root :=
  rootOfChunks (depthFor (chunks bytes).length) (chunks bytes)

end MerkleTree

/-! ## Containers -/

/-- A fork on a given chain. -/
structure ForkData where
  currentVersion : Version
  genesisValidatorsRoot : Root
  deriving DecidableEq

structure SigningData where
  objectRoot : Root
  domain : Domain
  deriving DecidableEq

def ForkData.root (data : ForkData) : Root :=
  MerkleTree.node (MerkleTree.leaf data.currentVersion) data.genesisValidatorsRoot

def SigningData.root (data : SigningData) : Root :=
  MerkleTree.node data.objectRoot data.domain

/-! ## Signable values -/

/-- A value that can be signed by its root. -/
inductive Signable where
  | uint8 (value : UInt8)
  | uint16 (value : UInt16)
  | uint32 (value : UInt32)
  | uint64 (value : UInt64)
  | flag (value : Bool)
  | bytes4 (value : Bytes 4)
  | bytes32 (value : Bytes 32)
  | bytes48 (value : Bytes 48)
  | forkData (value : ForkData)
  | signingData (value : SigningData)
  deriving DecidableEq

namespace Signable

open MerkleTree

/-- The root of a value: a leaf if it fits into one, and a tree of leaves otherwise. -/
def root : Signable → Root
  | uint8 value => leaf (Bytes.littleEndian 1 value.toNat)
  | uint16 value => leaf (Bytes.littleEndian 2 value.toNat)
  | uint32 value => leaf (Bytes.littleEndian 4 value.toNat)
  | uint64 value => leaf (Bytes.littleEndian 8 value.toNat)
  | flag value => leaf (Bytes.littleEndian 1 value.toNat)
  | bytes4 value => leaf value
  | bytes32 value => value
  | bytes48 value => node (leaf (Bytes.leading value 32)) (leaf (value.drop 32))
  | forkData value => value.root
  | signingData value => value.root

/-- The bytes of a value; the parts of a container each fill whole chunks. -/
def encoding : Signable → Array UInt8
  | uint8 value => (Bytes.littleEndian 1 value.toNat).toArray
  | uint16 value => (Bytes.littleEndian 2 value.toNat).toArray
  | uint32 value => (Bytes.littleEndian 4 value.toNat).toArray
  | uint64 value => (Bytes.littleEndian 8 value.toNat).toArray
  | flag value => #[if value then 1 else 0]
  | bytes4 value => value.toArray
  | bytes32 value => value.toArray
  | bytes48 value => value.toArray
  | forkData value =>
    value.currentVersion.toArray ++ Array.replicate 28 0 ++ value.genesisValidatorsRoot.toArray
  | signingData value => value.objectRoot.toArray ++ value.domain.toArray

end Signable

end BeaconDuties
