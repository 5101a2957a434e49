import BeaconDuties.Proofs.Shuffle.WordWalk

/-!
# WindowReuse — the digest a walk carries is the one it needs

The larger position of a pair climbs up to the pivot, and beyond it descends from the end of the
list.  A walk that comes to the lowest position of a window from below, or to its highest one from
above, draws the digest of that window and hands it on to the positions that follow.  It also draws
at its first step and where it leaps from the pivot to the end of the list.  Whatever digest it
started with, and wherever in a window its halves start, the digest at hand when a bit is asked is
therefore one of this round and of the window of that bit:

* `Shuffle.DrawnAt` — where the digest in use at a step comes from;
* `Shuffle.exists_drawnAt` — it was drawn for the window of that step;
* `Shuffle.walkRound?_reads_windows` — every step of a round in machine words, and the whole round.
-/

namespace BeaconDuties

namespace Shuffle

variable {seed : Seed} {round : UInt8} {pivot size step : Nat}

/-! ## Where a digest comes from -/

/-- The digest in use at a step was drawn at `drawn`, whatever digest that step was brought, and has
been handed on ever since. -/
structure DrawnAt (seed : Seed) (round : UInt8) (pivot size step drawn : Nat) : Prop where
  mem_walkSteps : drawn ∈ walkSteps pivot size
  le : drawn ≤ step
  draws : ∀ block, blockAt seed round pivot size drawn block =
    source seed round (larger pivot size drawn / 256)
  keeps : ∀ between, drawn < between → between ≤ step →
    ∀ block, blockAt seed round pivot size between block = block

theorem DrawnAt.self (hstep : step ∈ walkSteps pivot size)
    (henters : entersWindow pivot size step = true) :
    DrawnAt seed round pivot size step step where
  mem_walkSteps := hstep
  le := Nat.le_refl step
  draws _ := blockAt_of_enters henters
  keeps _ hlt hle := absurd hle (Nat.not_le.2 hlt)

theorem DrawnAt.succ {drawn : Nat} (hdrawn : DrawnAt seed round pivot size step drawn)
    (hstays : entersWindow pivot size (step + 1) = false) :
    DrawnAt seed round pivot size (step + 1) drawn where
  mem_walkSteps := hdrawn.mem_walkSteps
  le := Nat.le_succ_of_le hdrawn.le
  draws := hdrawn.draws
  keeps between hlt hle block := by
    rcases Nat.le_succ_iff.1 hle with hbefore | rfl
    · exact hdrawn.keeps between hlt hbefore block
    · exact blockAt_of_stays hstays

/-- The digest in use at a step was drawn for the window of that step. -/
theorem exists_drawnAt (seed : Seed) (round : UInt8) (hstep : step ∈ walkSteps pivot size) :
    ∃ drawn, DrawnAt seed round pivot size step drawn ∧
      larger pivot size drawn / 256 = larger pivot size step / 256 := by
  induction step with
  | zero =>
    have hstart : (pivot + 2) / 2 ≤ 0 := (mem_walkSteps.1 hstep).1
    omega
  | succ step ih =>
    cases henters : entersWindow pivot size (step + 1) with
    | true => exact ⟨step + 1, .self hstep henters, rfl⟩
    | false =>
      rcases larger_pred_div hstep henters with ⟨hlt, hwindow⟩
      have hlast : step + 1 ≤ (pivot + size) / 2 := (mem_walkSteps.1 hstep).2
      have hbefore : step ∈ walkSteps pivot size := mem_walkSteps.2 ⟨by omega, by omega⟩
      rcases ih hbefore with ⟨drawn, hdrawn, hsame⟩
      exact ⟨drawn, hdrawn.succ henters, hsame.trans hwindow⟩

/-! ## Every step of a round -/

variable {α : Type}

/-- The steps before a step of the walk are counted from the first one. -/
theorem eq_range'_of_walkSteps_eq {earlier later : List Nat}
    (hsplit : walkSteps pivot size = earlier ++ step :: later) :
    earlier = List.range' (walkStart pivot) earlier.length ∧
      step = walkStart pivot + earlier.length := by
  rcases List.range'_eq_append_iff.1 hsplit with ⟨taken, htaken, hearlier, hlater⟩
  have hlength : earlier.length = taken := by
    rw [hearlier, List.length_range']
  have hhead := (List.range'_eq_cons_iff.1 hlater.symm).1
  subst hlength
  exact ⟨hearlier, by omega⟩

theorem mem_walkSteps_of_eq {earlier later : List Nat}
    (hsplit : walkSteps pivot size = earlier ++ step :: later) :
    step ∈ walkSteps pivot size ∧ ∀ other ∈ earlier, other ∈ walkSteps pivot size := by
  simp +contextual [hsplit]

theorem carriesWindow_foldl (seed : Seed) (round : UInt8) (items : Array α)
    {earlier later : List Nat} (hsplit : walkSteps pivot size = earlier ++ step :: later) :
    CarriesWindow seed round pivot size step
      (earlier.foldl (walkStep seed round pivot size) ⟨items, zeroHash⟩).block := by
  rcases eq_range'_of_walkSteps_eq hsplit with ⟨hearlier, hstep⟩
  have hlast := (mem_walkSteps.1 (mem_walkSteps_of_eq hsplit).1).2
  have htaken : walkStart pivot + earlier.length ≤ (pivot + size) / 2 + 1 := by omega
  have hcarries := (foldl_walkStep_range' seed round items earlier.length htaken).2
  rwa [← hearlier, ← hstep] at hcarries

/-- A round of a list of one up to `2 ^ 40` entries goes through in machine words: no sum exceeds a
word, no difference is below zero, no access is out of range, and the list is left as the walk in
natural numbers leaves it.  At every step both positions lie inside the list, the digest at hand is
the one of the seed, the round and the window of the larger position, the number of the bit is the
place of that position in its window, and the digest was drawn in this round, by this step or by an
earlier one in the same window. -/
theorem walkRound?_reads_windows (items : Array α) (seed : Seed) (round : UInt8)
    (hsome : 1 ≤ items.size) (hfits : items.size ≤ 2 ^ 40) :
    let size := items.size
    let pivot := Shuffle.pivot seed round size
    walkRound? seed items round = some (walkRound seed items round) ∧
    ∃ words, roundWords? (.ofNat pivot) (.ofNat size) = some words ∧
      ∀ earlier step later, walkSteps pivot size = earlier ++ step :: later →
        let before := earlier.foldl (walkStep seed round pivot size) ⟨items, zeroHash⟩
        (earlier.map UInt64.ofNat).foldlM (walkStep? seed round words) ⟨items, zeroHash⟩ =
          some before ∧
        ∃ read, read? seed round words before.block (.ofNat step) = some read ∧
          read.step.toNat = step ∧ read.partner.toNat = partner pivot size step ∧
          step < size ∧ partner pivot size step < size ∧
          let position := max step (partner pivot size step)
          read.bit.toNat = position % 256 ∧
          read.block = Sha256.hash
            (seed.toArray.push round ++ (Bytes.littleEndian 4 (position / 256)).toArray) ∧
          ∃ drawn, DrawnAt seed round pivot size step drawn ∧
            larger pivot size drawn / 256 = position / 256 := by
  rw [← maxListSize_eq_two_pow] at hfits
  intro size pivot
  have hpivot : pivot < size := pivot_lt seed round hsome
  rcases exists_roundWords hpivot hfits with ⟨words, hround, hwords⟩
  refine ⟨walkRound?_eq_some items seed round hsome hfits, words, hround, ?_⟩
  intro earlier step later hsplit before
  rcases mem_walkSteps_of_eq hsplit with ⟨hstep, hearlier⟩
  rcases exists_read hwords seed round before.block hstep with ⟨read, hread, hexact⟩
  rcases exists_drawnAt seed round hstep with ⟨drawn, hdrawn, hwindow⟩
  have hlarger : larger pivot size step = max step (partner pivot size step) :=
    larger_eq_max hstep
  have hblock := blockAt_eq_source hstep (carriesWindow_foldl seed round items hsplit)
  have hbefore := foldlM_walkStep? hwords seed round earlier hearlier ⟨items, zeroHash⟩ rfl
  refine ⟨hbefore, read, hread, hexact.step_eq, hexact.partner_eq, step_lt hpivot hstep,
    partner_lt hpivot hstep, ?_, ?_, drawn, hdrawn, ?_⟩
  · rw [hexact.bit_eq, hlarger]
  · rw [hexact.block_eq, hblock, hlarger]
    rfl
  · rw [hwindow, hlarger]

/-- Three hundred entries around the pivot 15: the walk leaps from position 15 to position 299 and
comes down to 265, whose bit is the ninth of window 1. -/
theorem walkRound?_reads_windows_leap :
    let items := Array.range 300
    let before := (List.range' 8 42).foldl (walkStep zeroHash 0 15 300) ⟨items, zeroHash⟩
    1 ≤ items.size ∧ items.size ≤ 2 ^ 40 ∧ Shuffle.pivot zeroHash 0 300 = 15 ∧
      walkSteps 15 300 = List.range' 8 42 ++ 50 :: List.range' 51 107 ∧
      walkRound? zeroHash items 0 = some (walkRound zeroHash items 0) ∧
      ∃ words read, roundWords? 15 300 = some words ∧
        read? zeroHash 0 words before.block 50 = some read ∧
        read.step.toNat = 50 ∧ read.partner.toNat = 265 ∧ read.bit.toNat = 9 ∧
        read.block = Sha256.hash (zeroHash.toArray.push 0 ++ (Bytes.littleEndian 4 1).toArray) ∧
        ∃ drawn, DrawnAt zeroHash 0 15 300 50 drawn ∧ larger 15 300 drawn / 256 = 1 := by
  intro items before
  have hsize : items.size = 300 := Array.size_range
  have hpivot : Shuffle.pivot zeroHash 0 300 = 15 := by decide +kernel
  have hsplit : walkSteps 15 300 = List.range' 8 42 ++ 50 :: List.range' 51 107 := by
    decide +kernel
  have hsome : 1 ≤ items.size := by omega
  have hfits : items.size ≤ 2 ^ 40 := by omega
  rcases walkRound?_reads_windows items zeroHash 0 hsome hfits with ⟨hwalk, words, hround, hsteps⟩
  rw [hsize, hpivot] at hround hsteps
  rcases hsteps _ 50 _ hsplit with
    ⟨_, read, hread, hstep, hpartner, _, _, hbit, hblock, drawn, hdrawn, hwindow⟩
  exact ⟨hsome, hfits, hpivot, hsplit, hwalk, words, read, hround, hread, hstep, hpartner, hbit,
    hblock, drawn, hdrawn, hwindow⟩

end Shuffle

end BeaconDuties
