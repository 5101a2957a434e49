import BeaconDuties.Proofs.Shuffle.InPlace

/-!
# WordWalk — the walk of a round in machine words

The walk counts its positions in natural numbers.  Here it is once more in 64-bit words, where a
sum that is no word, a difference below zero and a place past the end of a list or of a digest each
leave the walk without an answer.  No list that is short enough to be shuffled does so:

* `CheckedWord.add?`, `CheckedWord.sub?` — sums and differences that are given only if exact;
* `Shuffle.RoundWords`, `Shuffle.roundWords?` — what a round computes before its first step;
* `Shuffle.PairRead`, `Shuffle.read?` — what a step computes before it asks its bit;
* `Shuffle.walkStep?`, `Shuffle.walkRound?` — one step and one round;
* `Shuffle.exists_read`, `Shuffle.walkStep?_eq_some`, `Shuffle.walkRound?_eq_some` — each of them
  beside its counterpart in natural numbers.
-/

namespace BeaconDuties

/-! ## Checked words -/

namespace CheckedWord

/-- The sum of two words, unless it is no word. -/
def add? (a b : UInt64) : Option UInt64 :=
  if a.toNat + b.toNat < UInt64.size then some (a + b) else none

/-- The difference of two words, unless it is below zero. -/
def sub? (a b : UInt64) : Option UInt64 :=
  if b ≤ a then some (a - b) else none

variable {a b : UInt64}

theorem exists_add (hfits : a.toNat + b.toNat < UInt64.size) :
    ∃ sum, add? a b = some sum ∧ sum.toNat = a.toNat + b.toNat := by
  refine ⟨a + b, if_pos hfits, ?_⟩
  rw [UInt64.toNat_add]
  exact Nat.mod_eq_of_lt hfits

theorem exists_sub (hle : b.toNat ≤ a.toNat) :
    ∃ difference, sub? a b = some difference ∧ difference.toNat = a.toNat - b.toNat := by
  have hwords : b ≤ a := UInt64.le_iff_toNat_le.2 hle
  exact ⟨a - b, if_pos hwords, UInt64.toNat_sub_of_le a b hwords⟩

/-- The lowest byte of a word. -/
theorem toNat_and_255 (a : UInt64) : (a &&& 255).toNat = a.toNat % 256 := by
  rw [UInt64.toNat_and]
  exact Nat.and_two_pow_sub_one_eq_mod a.toNat 8

end CheckedWord

namespace Shuffle

open CheckedWord

variable {α : Type}

/-! ## The walk in words -/

/-- The pivot of a round, the size of its list, and the ends of its walk. -/
structure RoundWords where
  pivot : UInt64
  size : UInt64
  first : UInt64
  last : UInt64

def roundWords? (pivot size : UInt64) : Option RoundWords := do
  let first := (← add? pivot 2) / 2
  let last := (← add? pivot size) / 2
  return ⟨pivot, size, first, last⟩

/-- The words from the first step to the last one, both included. -/
def RoundWords.steps (words : RoundWords) : List UInt64 :=
  (List.range' words.first.toNat (words.last.toNat + 1 - words.first.toNat)).map UInt64.ofNat

/-- What a step asks its bit of: its two positions, a digest, and the number of the bit in it. -/
structure PairRead where
  step : UInt64
  partner : UInt64
  block : Bytes 32
  bit : UInt64

/-- What a step computes from the digest that it is brought. -/
def read? (seed : Seed) (round : UInt8) (words : RoundWords) (block : Bytes 32) (step : UInt64) :
    Option PairRead :=
  if step ≤ words.pivot then do
    let paired ← sub? words.pivot step
    let bit := step &&& 255
    let drawn := bit = 0 ∨ step = words.first
    return ⟨step, paired, if drawn then source seed round (step / 256).toNat else block, bit⟩
  else do
    let paired ← sub? (← add? words.pivot words.size) step
    let bit := paired &&& 255
    let drawn := bit = 255 ∨ step = (← add? words.pivot 1)
    return ⟨step, paired, if drawn then source seed round (paired / 256).toNat else block, bit⟩

/-- The two positions change places in the list if the bit is set. -/
def PairRead.swap? (read : PairRead) (items : Array α) : Option (Array α) := do
  let byte ← read.block[(read.bit / 8).toNat]?
  if byte.toNat.testBit (read.bit &&& 7).toNat then
    if read.step.toNat < items.size ∧ read.partner.toNat < items.size then
      some (items.swapIfInBounds read.step.toNat read.partner.toNat)
    else none
  else some items

def walkStep? (seed : Seed) (round : UInt8) (words : RoundWords) (state : WalkState α)
    (step : UInt64) : Option (WalkState α) := do
  let read ← read? seed round words state.block step
  let items ← read.swap? state.items
  return ⟨items, read.block⟩

def walkRound? (seed : Seed) (items : Array α) (round : UInt8) : Option (Array α) := do
  let words ← roundWords? (.ofNat (pivot seed round items.size)) (.ofNat items.size)
  let state ← words.steps.foldlM (walkStep? seed round words) ⟨items, zeroHash⟩
  return state.items

/-! ## The words of a round -/

variable {pivot size : Nat} {words : RoundWords}

/-- The words of a round are its numbers, and its list can be shuffled. -/
structure RoundWords.Exact (words : RoundWords) (pivot size : Nat) : Prop where
  pivot_lt : pivot < size
  size_le : size ≤ maxListSize
  pivot_eq : words.pivot.toNat = pivot
  size_eq : words.size.toNat = size
  first_eq : words.first.toNat = walkStart pivot
  last_eq : words.last.toNat = (pivot + size) / 2

/-- Twice the size of a list that can be shuffled is far from the largest word. -/
theorem add_self_lt_of_le (hfits : size ≤ maxListSize) : size + size + 2 < UInt64.size := by
  have hlimit : maxListSize + maxListSize + 2 < UInt64.size := by decide
  omega

theorem toNat_ofNat_of_le (hfits : size ≤ maxListSize) : (UInt64.ofNat size).toNat = size := by
  have hlimit := add_self_lt_of_le hfits
  exact UInt64.toNat_ofNat_of_lt' (by omega)

theorem exists_roundWords (hpivot : pivot < size) (hfits : size ≤ maxListSize) :
    ∃ words, roundWords? (.ofNat pivot) (.ofNat size) = some words ∧ words.Exact pivot size := by
  have hlimit := add_self_lt_of_le hfits
  have hsizeNat := toNat_ofNat_of_le hfits
  have hpivotNat : (UInt64.ofNat pivot).toNat = pivot := toNat_ofNat_of_le (by omega)
  have htwo : (2 : UInt64).toNat = 2 := rfl
  rcases exists_add (a := .ofNat pivot) (b := 2) (by omega) with ⟨below, hbelow, hbelowNat⟩
  rcases exists_add (a := .ofNat pivot) (b := .ofNat size) (by omega) with
    ⟨total, htotal, htotalNat⟩
  have hround : roundWords? (.ofNat pivot) (.ofNat size) =
      some ⟨.ofNat pivot, .ofNat size, below / 2, total / 2⟩ := by
    simp [roundWords?, hbelow, htotal]
  refine ⟨_, hround, hpivot, hfits, hpivotNat, hsizeNat, ?_, ?_⟩
  · rw [UInt64.toNat_div, hbelowNat, hpivotNat, htwo, walkStart]
  · rw [UInt64.toNat_div, htotalNat, hpivotNat, hsizeNat, htwo]

theorem RoundWords.Exact.steps_eq (hwords : words.Exact pivot size) :
    words.steps = (walkSteps pivot size).map UInt64.ofNat := by
  rw [RoundWords.steps, hwords.first_eq, hwords.last_eq, walkSteps]

/-! ## What a step computes -/

/-- The words of a step are those of the walk in natural numbers. -/
structure PairRead.Exact (read : PairRead) (seed : Seed) (round : UInt8) (pivot size : Nat)
    (block : Bytes 32) (step : Nat) : Prop where
  step_eq : read.step.toNat = step
  partner_eq : read.partner.toNat = Shuffle.partner pivot size step
  block_eq : read.block = blockAt seed round pivot size step block
  bit_eq : read.bit.toNat = larger pivot size step % 256

section Halves

variable (seed : Seed) (round : UInt8) (block : Bytes 32) {step : UInt64}

theorem exists_read_of_le (hwords : words.Exact pivot size) (hle : step.toNat ≤ pivot) :
    ∃ read, read? seed round words block step = some read ∧
      read.Exact seed round pivot size block step.toNat := by
  rcases hwords with ⟨-, -, rfl, rfl, hfirst, -⟩
  rcases exists_sub hle with ⟨paired, hsub, hpaired⟩
  have hside : step ≤ words.pivot := UInt64.le_iff_toNat_le.2 hle
  have hread : read? seed round words block step = some ⟨step, paired,
      if step &&& 255 = 0 ∨ step = words.first then source seed round (step / 256).toNat else block,
      step &&& 255⟩ := by
    simp [read?, hside, hsub]
  -- The lowest byte is zero at the lowest position of a window.
  have henters : entersWindow words.pivot.toNat words.size.toNat step.toNat = true ↔
      step &&& 255 = 0 ∨ step = words.first := by
    simp only [entersWindow, hle, larger_of_le hle, ← UInt64.toNat_inj, toNat_and_255, hfirst]
    simp
  refine ⟨_, hread, rfl, ?_, ?_, ?_⟩
  · rw [hpaired, partner_of_le hle]
  · simp only [blockAt, henters, larger_of_le hle]
    rfl
  · rw [toNat_and_255, larger_of_le hle]

theorem exists_read_of_lt (hwords : words.Exact pivot size) (hlt : pivot < step.toNat)
    (hstep : step.toNat < size) :
    ∃ read, read? seed round words block step = some read ∧
      read.Exact seed round pivot size block step.toNat := by
  rcases hwords with ⟨hpivot, hfits, rfl, rfl, -, -⟩
  -- The sum of pivot and size is a word, and no step of the list exceeds it.
  have hlimit := add_self_lt_of_le hfits
  have hone : (1 : UInt64).toNat = 1 := rfl
  rcases exists_add (a := words.pivot) (b := words.size) (by omega) with
    ⟨total, htotal, htotalNat⟩
  rcases exists_sub (a := total) (b := step) (by omega) with ⟨paired, hsub, hpaired⟩
  rcases exists_add (a := words.pivot) (b := 1) (by omega) with ⟨next, hnext, hnextNat⟩
  have hside : ¬ step ≤ words.pivot := by
    rw [UInt64.le_iff_toNat_le]
    omega
  have hread : read? seed round words block step = some ⟨step, paired,
      if paired &&& 255 = 255 ∨ step = next then source seed round (paired / 256).toNat else block,
      paired &&& 255⟩ := by
    simp [read?, hside, htotal, hsub, hnext]
  have hlarger : larger words.pivot.toNat words.size.toNat step.toNat = paired.toNat := by
    rw [larger_of_lt hlt, hpaired, htotalNat]
  have henters : entersWindow words.pivot.toNat words.size.toNat step.toNat = true ↔
      paired &&& 255 = 255 ∨ step = next := by
    simp only [entersWindow, Nat.not_le.2 hlt, hlarger, ← UInt64.toNat_inj, toNat_and_255, hnextNat]
    simp
  refine ⟨_, hread, rfl, ?_, ?_, ?_⟩
  · rw [hpaired, htotalNat, partner_of_lt hlt]
  · simp only [blockAt, henters, hlarger]
    rfl
  · rw [toNat_and_255, hlarger]

end Halves

variable {seed : Seed} {round : UInt8} {block : Bytes 32} {step : Nat}

/-- No sum and no difference of a step fails. -/
theorem exists_read (hwords : words.Exact pivot size) (seed : Seed) (round : UInt8)
    (block : Bytes 32) (hstep : step ∈ walkSteps pivot size) :
    ∃ read, read? seed round words block (.ofNat step) = some read ∧
      read.Exact seed round pivot size block step := by
  have hlt : step < size := step_lt hwords.pivot_lt hstep
  have hword : (UInt64.ofNat step).toNat = step :=
    toNat_ofNat_of_le (hlt.le.trans hwords.size_le)
  rcases Nat.lt_or_ge pivot step with hhigh | hlow
  · have hafter : pivot < (UInt64.ofNat step).toNat := by omega
    simpa only [hword] using exists_read_of_lt seed round block hwords hafter (by omega)
  · have hupTo : (UInt64.ofNat step).toNat ≤ pivot := by omega
    simpa only [hword] using exists_read_of_le seed round block hwords hupTo

/-! ## One step -/

theorem windowBit_of_lt {bit : Nat} (hbit : bit < 256) :
    windowBit block bit = block[bit / 8].toNat.testBit (bit % 8) := by
  simp [windowBit, sourceBit, Nat.mod_eq_of_lt hbit]

theorem windowBit_mod (block : Bytes 32) (position : Nat) :
    windowBit block (position % 256) = windowBit block position := by
  have hsame : Fin.ofNat 256 (position % 256) = Fin.ofNat 256 position :=
    Fin.ext (Nat.mod_mod position 256)
  rw [windowBit, windowBit, hsame]

/-- The byte of the bit and both positions are found. -/
theorem swap?_eq_some {read : PairRead} {items : Array α} (hbit : read.bit.toNat < 256)
    (hstep : read.step.toNat < items.size) (hpartner : read.partner.toNat < items.size) :
    read.swap? items = some
      (if windowBit read.block read.bit.toNat then
        items.swapIfInBounds read.step.toNat read.partner.toNat
      else items) := by
  have hbyte : read.block[read.bit.toNat / 8]? = some read.block[read.bit.toNat / 8] :=
    Vector.getElem?_eq_getElem _
  have hlow : read.bit.toNat &&& 7 = read.bit.toNat % 8 :=
    Nat.and_two_pow_sub_one_eq_mod read.bit.toNat 3
  rw [windowBit_of_lt hbit]
  cases hset : read.block[read.bit.toNat / 8].toNat.testBit (read.bit.toNat % 8) with
  | true => simp [PairRead.swap?, hbyte, hlow, hset, hstep, hpartner]
  | false => simp [PairRead.swap?, hbyte, hlow, hset]

/-- A step in words does what the step in natural numbers does. -/
theorem walkStep?_eq_some (hwords : words.Exact pivot size) (hstep : step ∈ walkSteps pivot size)
    (state : WalkState α) (hsize : state.items.size = size) :
    walkStep? seed round words state (.ofNat step) =
      some (walkStep seed round pivot size state step) := by
  rcases exists_read hwords seed round state.block hstep with ⟨read, hread, hexact⟩
  have hbit : read.bit.toNat < 256 := by
    rw [hexact.bit_eq]
    exact Nat.mod_lt _ (by decide)
  have hinside : read.step.toNat < state.items.size := by
    rw [hexact.step_eq, hsize]
    exact step_lt hwords.pivot_lt hstep
  have hpartner : read.partner.toNat < state.items.size := by
    rw [hexact.partner_eq, hsize]
    exact partner_lt hwords.pivot_lt hstep
  have hwindow : windowBit read.block read.bit.toNat =
      windowBit (blockAt seed round pivot size step state.block) (larger pivot size step) := by
    rw [hexact.bit_eq, windowBit_mod, hexact.block_eq]
  have hswap := swap?_eq_some hbit hinside hpartner
  rw [hwindow, hexact.step_eq, hexact.partner_eq] at hswap
  cases hset : windowBit (blockAt seed round pivot size step state.block)
      (larger pivot size step) with
  | true => simp [walkStep?, walkStep, hread, hswap, hset, hexact.block_eq]
  | false => simp [walkStep?, walkStep, hread, hswap, hset, hexact.block_eq]

/-! ## One round -/

theorem foldlM_walkStep? (hwords : words.Exact pivot size) (seed : Seed) (round : UInt8)
    (steps : List Nat) (hsteps : ∀ step ∈ steps, step ∈ walkSteps pivot size)
    (state : WalkState α) (hsize : state.items.size = size) :
    (steps.map UInt64.ofNat).foldlM (walkStep? seed round words) state =
      some (steps.foldl (walkStep seed round pivot size) state) := by
  induction steps generalizing state with
  | nil => rfl
  | cons step steps ih =>
    have hstep := hsteps step (List.mem_cons_self ..)
    have hrest := fun other hmem => hsteps other (List.mem_cons_of_mem step hmem)
    have hnext := (size_walkStep seed round pivot size state step).trans hsize
    rw [List.map_cons, List.foldlM_cons, walkStep?_eq_some hwords hstep state hsize]
    exact ih hrest _ hnext

/-- On a list of at least one entry that can be shuffled, no sum, no difference and no access of a
round fails, and the round in words is the round in natural numbers. -/
theorem walkRound?_eq_some (items : Array α) (seed : Seed) (round : UInt8) (hsome : 0 < items.size)
    (hfits : items.size ≤ maxListSize) :
    walkRound? seed items round = some (walkRound seed items round) := by
  rcases exists_roundWords (pivot_lt seed round hsome) hfits with ⟨words, hround, hwords⟩
  have hrun := foldlM_walkStep? hwords seed round
    (walkSteps (Shuffle.pivot seed round items.size) items.size) (fun _ hmem => hmem)
    ⟨items, zeroHash⟩ rfl
  simp [walkRound?, walkRound, hround, hwords.steps_eq, hrun]

end Shuffle

end BeaconDuties
