import BeaconDuties.Proofs.MerkleTree.Padding
import BeaconDuties.Proofs.SigningDomain.Binding

/-!
# Encoding — signing a value is signing its bytes

The root of a value is given by its type: a leaf, two leaves, or the roots of the parts of a
container.  The root of a byte string comes from cutting it up.  Both find the same root, because
the bytes of a value fill a leaf with zeros behind them, and what starts a new leaf in a value
starts at a multiple of 32 in its bytes.  So a signer that holds the bytes of a value signs what a
signer that holds the value does, and how many zeros the bytes carry along is of no importance.

* `Signable.rootOfBytes_encoding` — the root of a value is the root of its bytes;
* `signingRoot_encodes` — signing roots of values, of words and of padded byte strings.
-/

namespace BeaconDuties

open MerkleTree

/-! ## Values and their bytes -/

/-- A flag is the number 0 or 1 in one byte. -/
theorem toArray_littleEndian_flag (flag : Bool) :
    (Bytes.littleEndian 1 flag.toNat).toArray = #[if flag then 1 else 0] := by
  cases flag with
  | false => decide
  | true => decide

theorem toArray_leading_append_drop (bytes : Bytes 48) :
    (Bytes.leading bytes 32).toArray ++ (bytes.drop 32).toArray = bytes.toArray := by
  simp [Bytes.leading]

theorem Signable.rootOfBytes_encoding (object : Signable) :
    rootOfBytes object.encoding = object.root := by
  cases object with
  | uint8 value => exact rootOfBytes_toArray _ (by decide)
  | uint16 value => exact rootOfBytes_toArray _ (by decide)
  | uint32 value => exact rootOfBytes_toArray _ (by decide)
  | uint64 value => exact rootOfBytes_toArray _ (by decide)
  | flag value =>
    rw [encoding, ← toArray_littleEndian_flag]
    exact rootOfBytes_toArray _ (by decide)
  | bytes4 value => exact rootOfBytes_toArray value (by decide)
  | bytes32 value =>
    rw [encoding, rootOfBytes_toArray value (by decide), leaf_eq_self]
    rfl
  | bytes48 value =>
    rw [encoding, ← toArray_leading_append_drop, rootOfBytes_append _ _ (by decide) (by decide),
      root, leaf_eq_self]
  | forkData value =>
    -- The zeros behind the version are those of its leaf.
    rw [encoding, ← toArray_leaf value.currentVersion (by decide),
      rootOfBytes_append _ _ (by decide) (by decide), leaf_eq_self]
    rfl
  | signingData value =>
    rw [encoding, rootOfBytes_append _ _ (by decide) (by decide), leaf_eq_self]
    rfl

/-! ## Signing roots -/

theorem signingRootOfBytes_encoding (object : Signable) (domain : Domain) :
    signingRootOfBytes object.encoding domain = signingRoot object domain := by
  rw [signingRootOfBytes, signingRoot, object.rootOfBytes_encoding]

/-- The signing root of a value is that of its bytes, and so is the signing root of a word.  Zeros
at the end of a byte string do not change its signing root, up to the size of the least tree that
holds the byte string. -/
theorem signingRoot_encodes (domain : Domain) :
    (∀ object : Signable,
      signingRoot object domain = signingRootOfBytes object.encoding domain) ∧
    (∀ value : UInt64, signingRootOfWord value domain =
      signingRootOfBytes (Bytes.littleEndian 8 value.toNat).toArray domain) ∧
    ∀ (bytes : Array UInt8) (depth zeros : Nat),
      IsLeast {depth | bytes.size ≤ 32 * 2 ^ depth} depth →
      bytes.size + zeros ≤ 32 * 2 ^ depth →
      signingRootOfBytes (bytes ++ Array.replicate zeros 0) domain =
        signingRootOfBytes bytes domain := by
  refine ⟨?_, ?_, ?_⟩
  · intro object
    exact (signingRootOfBytes_encoding object domain).symm
  · intro value
    exact (signingRootOfBytes_encoding (.uint64 value) domain).symm
  · intro bytes depth zeros hleast hfits
    rw [signingRootOfBytes, signingRootOfBytes, rootOfBytes_append_zeros hleast hfits]

/-- A byte more than a chunk, filled up to two chunks. -/
theorem signingRoot_encodes_two_chunks :
    let bytes : Array UInt8 := Array.replicate 33 7
    IsLeast {depth | bytes.size ≤ 32 * 2 ^ depth} 1 ∧ bytes.size + 31 ≤ 32 * 2 ^ 1 ∧
      signingRootOfBytes (bytes ++ Array.replicate 31 0) zeroHash =
        signingRootOfBytes bytes zeroHash := by
  intro bytes
  have hsize : bytes.size = 33 := Array.size_replicate
  have hleast : IsLeast {depth | bytes.size ≤ 32 * 2 ^ depth} 1 :=
    isLeast_depth_one (by omega) (by omega)
  have hfits : bytes.size + 31 ≤ 32 * 2 ^ 1 := by omega
  exact ⟨hleast, hfits, (signingRoot_encodes zeroHash).2.2 bytes 1 31 hleast hfits⟩

end BeaconDuties
