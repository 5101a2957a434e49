import BeaconDuties.Proofs.MerkleTree.Binding

/-!
# Padding — zeros up to the next full tree do not change a root

A byte string fills its last chunk up with zeros, and a tree fills its missing leaves up with zero
chunks.  Both say that a byte past the end is zero: the chunk in any place, inside the string or
past it, consists of the bytes that stand there.  So a root depends on the bytes, read with zeros
past the end, and on the depth of the tree, and zeros written out as far as the tree reaches change
neither.  Up to 64 bytes the tree has one or two leaves, and the root can be given.

* `MerkleTree.chunkAt`, `MerkleTree.getD_chunks` — the chunk in any place;
* `MerkleTree.rootOfChunks_congr` — a root depends on the leaves in reach alone;
* `MerkleTree.depthFor_chunks_le_iff` — the depth of the tree over a byte string;
* `MerkleTree.rootOfBytes_append_zeros` — zeros up to the reach of the tree;
* `MerkleTree.rootOfBytes_toArray`, `MerkleTree.rootOfBytes_append` — one leaf and two leaves.
-/

namespace BeaconDuties

namespace MerkleTree

/-! ## Chunks read past the end -/

/-- The chunk in place `i` of a byte string that goes on with zeros. -/
def chunkAt (bytes : Array UInt8) (i : Nat) : Root :=
  Vector.ofFn fun place => bytes.getD (32 * i + place.val) 0

theorem getElem?_chunks_of_lt (bytes : Array UInt8) {i : Nat} (hi : i < (bytes.size + 31) / 32) :
    (chunks bytes)[i]? = some (chunkAt bytes i) := by
  simp [chunks, chunkAt, hi]

theorem chunkAt_eq_zeroHash (bytes : Array UInt8) {i : Nat} (hi : bytes.size ≤ 32 * i) :
    chunkAt bytes i = zeroHash := by
  apply Vector.ext
  intro place hplace
  have hpast : bytes.size ≤ 32 * i + place := by omega
  simp [chunkAt, zeroHash, Bytes.zero, Array.getD, hpast]

theorem getD_chunks (bytes : Array UInt8) (i : Nat) :
    (chunks bytes).getD i zeroHash = chunkAt bytes i := by
  rw [List.getD_eq_getElem?_getD]
  rcases Nat.lt_or_ge i ((bytes.size + 31) / 32) with hinside | hpast
  · rw [getElem?_chunks_of_lt bytes hinside, Option.getD_some]
  · have hnone : (chunks bytes)[i]? = none :=
      List.getElem?_eq_none (by rw [length_chunks]; exact hpast)
    rw [hnone, Option.getD_none, chunkAt_eq_zeroHash bytes (by omega)]

/-- Zeros at the end of a byte string are read there anyway. -/
theorem getD_append_zeros (bytes : Array UInt8) (zeros i : Nat) :
    (bytes ++ Array.replicate zeros 0).getD i 0 = bytes.getD i 0 := by
  rw [Array.getD_eq_getD_getElem?, Array.getD_eq_getD_getElem?]
  rcases Nat.lt_or_ge i bytes.size with hinside | hpast
  · rw [Array.getElem?_append_left hinside]
  · rw [Array.getElem?_append_right hpast, Array.getElem?_eq_none hpast, Array.getElem?_replicate]
    split_ifs <;> rfl

theorem chunkAt_append_zeros (bytes : Array UInt8) (zeros i : Nat) :
    chunkAt (bytes ++ Array.replicate zeros 0) i = chunkAt bytes i := by
  simp only [chunkAt, getD_append_zeros]

/-! ## Depths -/

theorem depthFor_le_iff {leaves depth : Nat} : depthFor leaves ≤ depth ↔ leaves ≤ 2 ^ depth := by
  constructor
  · intro hdepth
    exact (le_two_pow_depthFor leaves).trans (Nat.pow_le_pow_right (by decide) hdepth)
  · intro hroom
    rw [depthFor]
    split_ifs with hfew
    · exact Nat.zero_le depth
    · have hlast : (leaves - 1).log2 < depth := (Nat.log2_lt (by omega)).2 (by omega)
      exact hlast

theorem depthFor_chunks_le_iff (bytes : Array UInt8) {depth : Nat} :
    depthFor (chunks bytes).length ≤ depth ↔ bytes.size ≤ 32 * 2 ^ depth := by
  rw [depthFor_le_iff, length_chunks]
  omega

/-- The tree over a byte string is the least one that holds it. -/
theorem depthFor_chunks_eq {bytes : Array UInt8} {depth : Nat}
    (hleast : IsLeast {depth | bytes.size ≤ 32 * 2 ^ depth} depth) :
    depthFor (chunks bytes).length = depth :=
  Nat.le_antisymm ((depthFor_chunks_le_iff bytes).2 hleast.1)
    (hleast.2 ((depthFor_chunks_le_iff bytes).1 (Nat.le_refl _)))

/-- Two leaves hold the byte strings from 33 to 64 bytes. -/
theorem isLeast_depth_one {bytes : Array UInt8} (hone : 32 < bytes.size)
    (htwo : bytes.size ≤ 64) : IsLeast {depth | bytes.size ≤ 32 * 2 ^ depth} 1 := by
  refine ⟨htwo, ?_⟩
  intro depth (hroom : bytes.size ≤ 32 * 2 ^ depth)
  rcases Nat.eq_zero_or_pos depth with hzero | hpos
  · rw [hzero] at hroom
    omega
  · exact hpos

/-! ## Roots -/

theorem rootOfChunks_zero (leaves : List Root) :
    rootOfChunks 0 leaves = leaves.getD 0 zeroHash := by
  cases leaves with
  | nil => rfl
  | cons first leaves => rfl

/-- A root depends on the leaves that the tree reaches, read with zero chunks past the end. -/
theorem rootOfChunks_congr (depth : Nat) {leaves leaves' : List Root}
    (hsame : ∀ i < 2 ^ depth, leaves.getD i zeroHash = leaves'.getD i zeroHash) :
    rootOfChunks depth leaves = rootOfChunks depth leaves' := by
  induction depth generalizing leaves leaves' with
  | zero =>
    rw [rootOfChunks_zero, rootOfChunks_zero]
    exact hsame 0 (by decide)
  | succ depth ih =>
    have hhalf : 1 <<< depth = 2 ^ depth := Nat.one_shiftLeft depth
    have hdouble : 2 ^ (depth + 1) = 2 ^ depth + 2 ^ depth := by rw [Nat.pow_succ, Nat.mul_two]
    rw [rootOfChunks, rootOfChunks, hhalf]
    congr 1
    · apply ih
      intro i hi
      simpa [List.getElem?_take, hi] using hsame i (by omega)
    · apply ih
      intro i hi
      simpa [List.getElem?_drop] using hsame (2 ^ depth + i) (by omega)

/-- Zeros do not change the root of a byte string as long as they fit under its tree. -/
theorem rootOfBytes_append_zeros {bytes : Array UInt8} {depth zeros : Nat}
    (hleast : IsLeast {depth | bytes.size ≤ 32 * 2 ^ depth} depth)
    (hfits : bytes.size + zeros ≤ 32 * 2 ^ depth) :
    rootOfBytes (bytes ++ Array.replicate zeros 0) = rootOfBytes bytes := by
  have hsize : (bytes ++ Array.replicate zeros 0).size = bytes.size + zeros := by simp
  -- A tree that holds the longer string holds the shorter one too.
  have hleast' : IsLeast {depth | (bytes ++ Array.replicate zeros 0).size ≤ 32 * 2 ^ depth}
      depth := by
    rw [hsize]
    exact ⟨hfits, fun other hother => hleast.2 (Nat.le_of_add_right_le hother)⟩
  rw [rootOfBytes, rootOfBytes, depthFor_chunks_eq hleast, depthFor_chunks_eq hleast']
  apply rootOfChunks_congr
  intro i _
  rw [getD_chunks, getD_chunks, chunkAt_append_zeros]

/-! ## Small trees -/

theorem rootOfBytes_of_size_le {bytes : Array UInt8} (hsize : bytes.size ≤ 32) :
    rootOfBytes bytes = chunkAt bytes 0 := by
  have hdepth : depthFor (chunks bytes).length = 0 :=
    Nat.le_zero.1 ((depthFor_chunks_le_iff bytes).2 hsize)
  rw [rootOfBytes, hdepth, rootOfChunks_zero, getD_chunks]

theorem rootOfBytes_of_lt_size {bytes : Array UInt8} (hone : 32 < bytes.size)
    (htwo : bytes.size ≤ 64) :
    rootOfBytes bytes = node (chunkAt bytes 0) (chunkAt bytes 1) := by
  have hdepth : depthFor (chunks bytes).length = 1 :=
    depthFor_chunks_eq (isLeast_depth_one hone htwo)
  have hlength : (chunks bytes).length = 2 := by
    rw [length_chunks]
    omega
  rw [rootOfBytes, hdepth, ← getD_chunks, ← getD_chunks]
  match chunks bytes, hlength with
  | [first, second], _ => rfl

theorem leaf_eq_chunkAt {n : Nat} (bytes : Bytes n) : leaf bytes = chunkAt bytes.toArray 0 := by
  apply Vector.ext
  intro place hplace
  simp [leaf, chunkAt]

theorem leaf_eq_self (bytes : Bytes 32) : leaf bytes = bytes := by
  apply Vector.ext
  intro place hplace
  simp [leaf]

/-- A byte string that fits into a leaf is that leaf. -/
theorem rootOfBytes_toArray {n : Nat} (bytes : Bytes n) (hfits : n ≤ 32) :
    rootOfBytes bytes.toArray = leaf bytes := by
  rw [rootOfBytes_of_size_le (by simpa using hfits), leaf_eq_chunkAt]

theorem chunkAt_append_zero (left : Bytes 32) (right : Array UInt8) :
    chunkAt (left.toArray ++ right) 0 = left := by
  apply Vector.ext
  intro place hplace
  simp [chunkAt, Array.getD_eq_getD_getElem?, Array.getElem?_append]

theorem chunkAt_append_succ (left : Bytes 32) (right : Array UInt8) (i : Nat) :
    chunkAt (left.toArray ++ right) (i + 1) = chunkAt right i := by
  apply Vector.ext
  intro place hplace
  have hpast : ¬ 32 * (i + 1) + place < 32 := by omega
  have hplace' : 32 * (i + 1) + place - 32 = 32 * i + place := by omega
  simp [chunkAt, Array.getD_eq_getD_getElem?, Array.getElem?_append, hpast, hplace']

/-- A full chunk and a byte string that fits into another one are two leaves. -/
theorem rootOfBytes_append {n : Nat} (left : Bytes 32) (right : Bytes n) (hsome : 0 < n)
    (hfits : n ≤ 32) :
    rootOfBytes (left.toArray ++ right.toArray) = node left (leaf right) := by
  have hsize : (left.toArray ++ right.toArray).size = 32 + n := by simp
  rw [rootOfBytes_of_lt_size (by omega) (by omega), chunkAt_append_zero, chunkAt_append_succ,
    leaf_eq_chunkAt]

end MerkleTree

end BeaconDuties
