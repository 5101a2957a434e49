import BeaconDuties.Proofs.Shuffle.Bijection
import BeaconDuties.Proposer

/-!
# HashInputs — what is hashed tells what it is hashed for

A shuffle hashes the seed and a round for a pivot, and the seed, a round and the number of a window
in four bytes for the bits of the window; the search for a proposer hashes the seed and a counter in
eight bytes.  The three have different sizes, so none is taken for another.  Four bytes keep the
number of a window modulo `2 ^ 32`, so the windows are told apart exactly as long as there are no
more of them than that, which is what the limit on the size of a list ensures:

* `Bytes.toNatLE_littleEndian`, `Bytes.littleEndian_inj` — what the lowest bytes keep of a number;
* `Shuffle.sourceInput_inj` — when two windows have the same input;
* `Shuffle.InputsTellApart` — what the inputs of the positions below a limit tell;
* `Shuffle.checkListSize_iff_inputsTellApart` — the sizes that are accepted are those for which they
  do.
-/

namespace BeaconDuties

/-! ## The lowest bytes of a number -/

namespace Bytes

variable {k a b : Nat}

theorem toList_littleEndian_succ (k value : Nat) :
    (littleEndian (k + 1) value).toList =
      UInt8.ofNat value :: (littleEndian k (value / 256)).toList := by
  have hshift (i : Nat) : value >>> (8 * (i + 1)) = (value / 256) >>> (8 * i) := by
    rw [Nat.mul_succ, Nat.add_comm, Nat.shiftRight_add, Nat.shiftRight_eq_div_pow value 8]
  simp [littleEndian, Vector.toList_ofFn, List.ofFn_succ, hshift]

theorem toNatLE_littleEndian (k value : Nat) :
    (littleEndian k value).toNatLE = value % 256 ^ k := by
  induction k generalizing value with
  | zero =>
    rw [Nat.pow_zero, Nat.mod_one]
    rfl
  | succ k ih =>
    calc
      (littleEndian (k + 1) value).toNatLE
          = (UInt8.ofNat value).toNat + 256 * (littleEndian k (value / 256)).toNatLE := by
            rw [toNatLE, toList_littleEndian_succ]
            rfl
      _ = value % 256 + 256 * (value / 256 % 256 ^ k) := by
            rw [UInt8.toNat_ofNat', ih]
      _ = value % 256 ^ (k + 1) := by
            rw [Nat.pow_succ', Nat.mod_mul]

theorem littleEndian_inj (ha : a < 256 ^ k) (hb : b < 256 ^ k) :
    littleEndian k a = littleEndian k b ↔ a = b := by
  constructor
  · intro hbytes
    have hnumber := congrArg toNatLE hbytes
    rwa [toNatLE_littleEndian, toNatLE_littleEndian, Nat.mod_eq_of_lt ha,
      Nat.mod_eq_of_lt hb] at hnumber
  · rintro rfl
    rfl

end Bytes

/-! ## The three inputs -/

theorem ProposerLottery.size_blockInput (seed : Seed) (k : Nat) :
    (blockInput seed k).size = 40 := by
  simp [blockInput]

namespace Shuffle

variable {seed seed' : Seed} {round round' : UInt8} {window window' : Nat}

theorem size_pivotInput (seed : Seed) (round : UInt8) : (pivotInput seed round).size = 33 := by
  simp [pivotInput]

theorem size_sourceInput (seed : Seed) (round : UInt8) (window : Nat) :
    (sourceInput seed round window).size = 37 := by
  simp [sourceInput]

theorem pivotInput_inj : pivotInput seed round = pivotInput seed' round' ↔
    seed = seed' ∧ round = round' := by
  rw [pivotInput, pivotInput, Array.push_eq_push, Vector.toArray_inj, and_comm]

/-- Windows have the same input if seed and round agree and four bytes keep the same of them. -/
theorem sourceInput_inj : sourceInput seed round window = sourceInput seed' round' window' ↔
    seed = seed' ∧ round = round' ∧ Bytes.littleEndian 4 window = Bytes.littleEndian 4 window' := by
  constructor
  · intro hinput
    rcases Array.append_inj hinput (by simp) with ⟨hpivot, hwindow⟩
    rcases pivotInput_inj.1 hpivot with ⟨hseed, hround⟩
    exact ⟨hseed, hround, Vector.toArray_inj.1 hwindow⟩
  · rintro ⟨rfl, rfl, hwindow⟩
    rw [sourceInput, sourceInput, hwindow]

theorem sourceInput_ne_pivotInput :
    sourceInput seed round window ≠ pivotInput seed' round' := by
  intro hinput
  have hsize := congrArg Array.size hinput
  rw [size_sourceInput, size_pivotInput] at hsize
  omega

theorem sourceInput_ne_blockInput (k : Nat) :
    sourceInput seed round window ≠ ProposerLottery.blockInput seed' k := by
  intro hinput
  have hsize := congrArg Array.size hinput
  rw [size_sourceInput, ProposerLottery.size_blockInput] at hsize
  omega

/-! ## Positions below a limit -/

/-- Four bytes hold the number of every window of the positions below a limit, and the input of a
window tells its seed, its round and its number, and that it is neither a pivot's nor a block of
values'. -/
structure InputsTellApart (limit : Nat) : Prop where
  window_fits : ∀ position < limit, position / 256 < 2 ^ 32 ∧
    (Bytes.littleEndian 4 (position / 256)).toNatLE = position / 256
  source_eq_iff : ∀ position < limit, ∀ other < limit,
    ∀ (seed seed' : Seed) (round round' : UInt8),
      sourceInput seed round (position / 256) = sourceInput seed' round' (other / 256) ↔
        seed = seed' ∧ round = round' ∧ position / 256 = other / 256
  source_ne_pivot : ∀ position < limit, ∀ (seed seed' : Seed) (round round' : UInt8),
    sourceInput seed round (position / 256) ≠ pivotInput seed' round'
  source_ne_values : ∀ position < limit, ∀ (seed seed' : Seed) (round : UInt8) (k : Nat),
    sourceInput seed round (position / 256) ≠ ProposerLottery.blockInput seed' k

theorem window_lt {limit position : Nat} (hfits : limit ≤ 2 ^ 40) (hposition : position < limit) :
    position / 256 < 256 ^ 4 := by
  rw [Nat.div_lt_iff_lt_mul (by decide)]
  omega

theorem inputsTellApart_of_le {limit : Nat} (hfits : limit ≤ 2 ^ 40) : InputsTellApart limit where
  window_fits position hposition := by
    have hwindow := window_lt hfits hposition
    exact ⟨hwindow, by rw [Bytes.toNatLE_littleEndian, Nat.mod_eq_of_lt hwindow]⟩
  source_eq_iff position hposition other hother seed seed' round round' := by
    rw [sourceInput_inj,
      Bytes.littleEndian_inj (window_lt hfits hposition) (window_lt hfits hother)]
  source_ne_pivot _ _ _ _ _ _ := sourceInput_ne_pivotInput
  source_ne_values _ _ _ _ _ k := sourceInput_ne_blockInput k

/-- The window of position `2 ^ 40` has the input of window 0. -/
theorem sourceInput_two_pow (seed : Seed) (round : UInt8) :
    sourceInput seed round (2 ^ 40 / 256) = sourceInput seed round 0 := by
  have hbytes : Bytes.littleEndian 4 (2 ^ 40 / 256) = Bytes.littleEndian 4 0 := by decide
  rw [sourceInput, sourceInput, hbytes]

theorem inputsTellApart_iff {limit : Nat} : InputsTellApart limit ↔ limit ≤ 2 ^ 40 := by
  refine ⟨?_, inputsTellApart_of_le⟩
  intro hapart
  by_contra hlong
  have hwindows := (hapart.source_eq_iff (2 ^ 40) (by omega) 0 (by omega) zeroHash zeroHash 0 0).1
    (sourceInput_two_pow zeroHash 0)
  exact absurd hwindows.2.2 (by decide)

theorem checkListSize_eq_ok_iff {size : Nat} : checkListSize size = .ok () ↔ size ≤ 2 ^ 40 := by
  rw [← maxListSize_eq_two_pow]
  refine ⟨?_, checkListSize_of_le⟩
  intro haccepted
  by_contra hlong
  rw [checkListSize_of_lt (Nat.not_le.1 hlong)] at haccepted
  cases haccepted

/-- The sizes that are accepted are exactly those for which the inputs of the positions tell seeds,
rounds and windows apart, and these from pivots and from blocks of values.  The largest such size is
`2 ^ 40`: with one entry more, the window of position `2 ^ 40`, which is not the first one, has the
input of the first one. -/
theorem checkListSize_iff_inputsTellApart :
    (∀ count, checkListSize count = .ok () ↔ InputsTellApart count) ∧
    IsGreatest {limit | InputsTellApart limit} (2 ^ 40) ∧
    ∀ (seed : Seed) (round : UInt8), 2 ^ 40 / 256 ≠ 0 ∧
      sourceInput seed round (2 ^ 40 / 256) = sourceInput seed round 0 := by
  refine ⟨?_, ⟨inputsTellApart_of_le le_rfl, fun _ => inputsTellApart_iff.1⟩, ?_⟩
  · intro count
    rw [checkListSize_eq_ok_iff, inputsTellApart_iff]
  · intro seed round
    exact ⟨by decide, sourceInput_two_pow seed round⟩

end Shuffle

end BeaconDuties
