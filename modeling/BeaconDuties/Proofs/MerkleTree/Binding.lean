import BeaconDuties.MerkleTree
import Mathlib

/-!
# Binding — a root determines its leaves, or its digests collide

A root is computed by hashing blocks of two roots each, from the leaves upwards.  Here the blocks
are recorded as they are hashed.  When two trees of one shape have the same root, the same block was
hashed last in both, or two different ones have the same digest; in the first case the same holds of
both halves.  So the leaves are the same, or some block of one computation collides with one of the
other.

* `MerkleTree.Hashed`, `MerkleTree.hashChunks` — roots with the blocks hashed for them, and the
  recorded computation, which gives the same root (`MerkleTree.root_hashChunks`);
* `MerkleTree.Collide` — two different blocks with one digest;
* `MerkleTree.chunks_injective` — byte strings of one size are told apart by their chunks;
* `MerkleTree.hashChunks_binds`, `MerkleTree.hashBytes_binds` — what equal roots mean.
-/

namespace BeaconDuties

namespace MerkleTree

/-! ## Recorded computations -/

/-- A root together with the blocks that were hashed to get it. -/
structure Hashed where
  root : Root
  blocks : List (Array UInt8)

namespace Hashed

/-- A root that is given and not computed. -/
def given (root : Root) : Hashed where
  root := root
  blocks := []

/-- The parent of two roots, for which one more block is hashed. -/
def parent (left right : Hashed) : Hashed where
  root := Sha256.hash (left.root.toArray ++ right.root.toArray)
  blocks := (left.root.toArray ++ right.root.toArray) :: (left.blocks ++ right.blocks)

theorem root_parent (left right : Hashed) :
    (parent left right).root = node left.root right.root :=
  rfl

end Hashed

/-- The recorded computation of a root over leaves. -/
def hashChunks : (depth : Nat) → List Root → Hashed
  | 0, chunks => .given (chunks.headD zeroHash)
  | depth + 1, chunks =>
    .parent (hashChunks depth (chunks.take (1 <<< depth)))
      (hashChunks depth (chunks.drop (1 <<< depth)))

def hashBytes (bytes : Array UInt8) : Hashed :=
  hashChunks (depthFor (chunks bytes).length) (chunks bytes)

theorem root_hashChunks (depth : Nat) (chunks : List Root) :
    (hashChunks depth chunks).root = rootOfChunks depth chunks := by
  induction depth generalizing chunks with
  | zero => rfl
  | succ depth ih => rw [hashChunks, Hashed.root_parent, ih, ih, rootOfChunks]

theorem root_hashBytes (bytes : Array UInt8) : (hashBytes bytes).root = rootOfBytes bytes :=
  root_hashChunks _ _

/-! ## Collisions -/

/-- Two different blocks of 64 bytes, one from each list, have the same digest. -/
def Collide (blocks blocks' : List (Array UInt8)) : Prop :=
  ∃ block ∈ blocks, ∃ block' ∈ blocks', block.size = 64 ∧ block'.size = 64 ∧ block ≠ block' ∧
    Sha256.hash block = Sha256.hash block'

theorem Collide.mono {blocks blocks' more more' : List (Array UInt8)}
    (hcollide : Collide blocks blocks') (hsub : blocks ⊆ more) (hsub' : blocks' ⊆ more') :
    Collide more more' := by
  rcases hcollide with ⟨block, hmem, block', hmem', hcollision⟩
  exact ⟨block, hsub hmem, block', hsub' hmem', hcollision⟩

variable {left right left' right' : Hashed}

theorem Collide.parent_left (hcollide : Collide left.blocks left'.blocks) :
    Collide (Hashed.parent left right).blocks (Hashed.parent left' right').blocks :=
  hcollide.mono (List.subset_cons_of_subset _ (List.subset_append_left _ _))
    (List.subset_cons_of_subset _ (List.subset_append_left _ _))

theorem Collide.parent_right (hcollide : Collide right.blocks right'.blocks) :
    Collide (Hashed.parent left right).blocks (Hashed.parent left' right').blocks :=
  hcollide.mono (List.subset_cons_of_subset _ (List.subset_append_right _ _))
    (List.subset_cons_of_subset _ (List.subset_append_right _ _))

/-- Equal parents have equal children, unless the blocks of the parents collide. -/
theorem parent_binds
    (hroot : (Hashed.parent left right).root = (Hashed.parent left' right').root) :
    (left.root = left'.root ∧ right.root = right'.root) ∨
      Collide (Hashed.parent left right).blocks (Hashed.parent left' right').blocks := by
  by_cases hblock : left.root.toArray ++ right.root.toArray =
      left'.root.toArray ++ right'.root.toArray
  · -- Roots are equally wide, so the block can be cut in only one way.
    have hwidth : left.root.toArray.size = left'.root.toArray.size := by simp
    rcases Array.append_inj hblock hwidth with ⟨hleft, hright⟩
    exact .inl ⟨Vector.toArray_inj.1 hleft, Vector.toArray_inj.1 hright⟩
  · exact .inr ⟨_, List.mem_cons_self, _, List.mem_cons_self, by simp, by simp, hblock, hroot⟩

/-! ## Leaves -/

/-- Trees of one depth with equally many leaves, and room for them, have the same leaves if they
have the same root, unless their blocks collide. -/
theorem hashChunks_binds (depth : Nat) {leaves leaves' : List Root}
    (hlength : leaves.length = leaves'.length) (hfits : leaves.length ≤ 2 ^ depth)
    (hroot : (hashChunks depth leaves).root = (hashChunks depth leaves').root) :
    leaves = leaves' ∨
      Collide (hashChunks depth leaves).blocks (hashChunks depth leaves').blocks := by
  induction depth generalizing leaves leaves' with
  | zero =>
    left
    match leaves, leaves', hlength, hfits with
    | [], [], _, _ => rfl
    | [leaf], [leaf'], _, _ => exact congrArg (fun leaf => [leaf]) hroot
  | succ depth ih =>
    have hhalf : 1 <<< depth = 2 ^ depth := Nat.one_shiftLeft depth
    have hdouble : 2 ^ (depth + 1) = 2 ^ depth + 2 ^ depth := by rw [Nat.pow_succ, Nat.mul_two]
    rcases parent_binds hroot with ⟨hleft, hright⟩ | hcollide
    · have hfirst := ih (by simp [hlength]) (by simp [hhalf]) hleft
      have hsecond := ih (by simp [hlength]) (by simp [hhalf]; omega) hright
      rcases hfirst with hfirst | hcollide
      · rcases hsecond with hsecond | hcollide
        · left
          rw [← List.take_append_drop (1 <<< depth) leaves, hfirst, hsecond,
            List.take_append_drop]
        · exact .inr hcollide.parent_right
      · exact .inr hcollide.parent_left
    · exact .inr hcollide

/-! ## Byte strings -/

theorem le_two_pow_depthFor (leaves : Nat) : leaves ≤ 2 ^ depthFor leaves := by
  rw [depthFor]
  split_ifs with hfew
  · simpa using hfew
  · have hlast : leaves - 1 < 2 ^ ((leaves - 1).log2 + 1) := Nat.lt_log2_self
    omega

theorem length_chunks (bytes : Array UInt8) : (chunks bytes).length = (bytes.size + 31) / 32 := by
  simp [chunks]

/-- A byte stands in the chunk and at the place that its position says. -/
theorem getElem?_chunks (bytes : Array UInt8) {i : Nat} (hi : i < bytes.size) :
    ((chunks bytes)[i / 32]?.bind fun chunk => chunk[i % 32]?) = bytes[i]? := by
  have hplace : 32 * (i / 32) + i % 32 = i := Nat.div_add_mod i 32
  have hchunk : i / 32 < (bytes.size + 31) / 32 := by omega
  have hbyte : i % 32 < 32 := Nat.mod_lt i (by decide)
  simp [chunks, hplace, hchunk, hbyte, hi]

theorem chunks_injective {bytes bytes' : Array UInt8} (hsize : bytes.size = bytes'.size)
    (hchunks : chunks bytes = chunks bytes') : bytes = bytes' := by
  apply Array.ext hsize
  intro i hi hi'
  apply Option.some.inj
  calc
    some bytes[i] = bytes[i]? := (Array.getElem?_eq_getElem hi).symm
    _ = (chunks bytes)[i / 32]?.bind fun chunk => chunk[i % 32]? := (getElem?_chunks bytes hi).symm
    _ = (chunks bytes')[i / 32]?.bind fun chunk => chunk[i % 32]? := by rw [hchunks]
    _ = bytes'[i]? := getElem?_chunks bytes' hi'
    _ = some bytes'[i] := Array.getElem?_eq_getElem hi'

/-- Byte strings of one size have different roots, unless their blocks collide. -/
theorem hashBytes_binds {bytes bytes' : Array UInt8} (hsize : bytes.size = bytes'.size)
    (hroot : (hashBytes bytes).root = (hashBytes bytes').root) :
    bytes = bytes' ∨ Collide (hashBytes bytes).blocks (hashBytes bytes').blocks := by
  have hlength : (chunks bytes).length = (chunks bytes').length := by
    rw [length_chunks, length_chunks, hsize]
  rw [hashBytes, hashBytes, ← hlength] at hroot ⊢
  rcases hashChunks_binds _ hlength (le_two_pow_depthFor _) hroot with hchunks | hcollide
  · exact .inl (chunks_injective hsize hchunks)
  · exact .inr hcollide

end MerkleTree

end BeaconDuties
