import BeaconDuties.Proofs.Subnet.LastEpochs

/-!
# Stagger — nodes of different offsets leave in different slots

The next period of a node starts in an epoch of the window of one period length after the current
epoch, and its offset takes that epoch to a multiple of the length.  Two nodes whose next periods
start in the same epoch have therefore the same offset, on whichever side of the start before the
next multiple they are.  As many nodes as the length has epochs, of different offsets, fill the
whole window.

* `nextStart_inj` — the next start determines the offset;
* `range_eq_Icc` — different numbers in a window of as many fill it;
* `SubnetParams.nextPeriodEpoch_eq_iff` — which nodes have a common next period;
* `unsubscriptionSlot_staggered` — which nodes leave in the same slot, and which slots there are.
-/

namespace BeaconDuties

/-! ## Windows -/

section Window

variable {length offset other epoch : Nat}

theorem nextStart_inj (hoffset : offset < length) (hother : other < length)
    (hsame : length * ((epoch + offset) / length + 1) - offset =
      length * ((epoch + other) / length + 1) - other) : offset = other := by
  rcases (isLeast_nextStart hoffset epoch).1 with ⟨_, hmultiple⟩
  rcases (isLeast_nextStart hother epoch).1 with ⟨_, hmultiple'⟩
  rw [hsame] at hmultiple
  -- Both offsets take the common start to a multiple of the length.
  have hcongruent : offset ≡ other [MOD length] :=
    Nat.ModEq.add_left_cancel' _ ((Nat.modEq_zero_iff_dvd.2 hmultiple).trans
      (Nat.modEq_zero_iff_dvd.2 hmultiple').symm)
  exact Nat.ModEq.eq_of_lt_of_lt hcongruent hoffset hother

theorem range_eq_Icc {start : Fin length → Nat} (hinjective : Function.Injective start)
    (hwindow : ∀ i, epoch < start i ∧ start i ≤ epoch + length) :
    Set.range start = Set.Icc (epoch + 1) (epoch + length) := by
  have hinside : Finset.univ.image start ⊆ Finset.Icc (epoch + 1) (epoch + length) := by
    intro next hnext
    rcases Finset.mem_image.1 hnext with ⟨i, _, rfl⟩
    exact Finset.mem_Icc.2 (hwindow i)
  have hcard : (Finset.univ.image start).card = length := by
    rw [Finset.card_image_of_injective _ hinjective, Finset.card_univ, Fintype.card_fin]
  have hfills := Finset.eq_of_subset_of_card_le hinside (by rw [hcard, Nat.card_Icc]; omega)
  rw [← Finset.coe_Icc, ← hfills, Finset.coe_image, Finset.coe_univ, Set.image_univ]

end Window

/-! ## Next periods -/

theorem SubnetParams.nextPeriodEpoch_eq_iff {params : SubnetParams} {epoch : Epoch}
    (hlength : 0 < params.periodEpochs.toNat)
    (hfits : epoch.toNat + 2 * params.periodEpochs.toNat < 2 ^ 64) (node other : NodeId) :
    params.nextPeriodEpoch node epoch = params.nextPeriodEpoch other epoch ↔
      node.toNat ≡ other.toNat [MOD params.periodEpochs.toNat] := by
  have hnext := toNat_nextPeriodEpoch hlength node hfits
  have hnext' := toNat_nextPeriodEpoch hlength other hfits
  constructor
  · intro hsame
    rw [← hsame, hnext] at hnext'
    exact nextStart_inj (Nat.mod_lt _ hlength) (Nat.mod_lt _ hlength) hnext'
  · intro hcongruent
    apply UInt64.toNat_inj.1
    rw [hnext, hnext', hcongruent]

/-! ## Slots -/

/-- Under valid constants, and with two periods to go before the slots run out, two nodes leave
their subnets in the same slot just if their ids are congruent modulo the period length.  As many
nodes as a period has epochs, no two of them congruent, leave in as many slots, which are the first
ones of the epochs of one period length after the current epoch. -/
theorem unsubscriptionSlot_staggered (networking : Networking) (clock : EpochClock) (slot : Slot)
    (hvalid : networking.validate = .ok ())
    (hfits : ((clock.epochAt slot).toNat + 2 * networking.epochsPerSubnetSubscription.toNat) *
      clock.slotsPerEpoch.toNat < 2 ^ 64) :
    let length := networking.epochsPerSubnetSubscription.toNat
    let current := (clock.epochAt slot).toNat
    ∃ leaving : NodeId → Slot,
      (∀ node, unsubscriptionSlot node slot networking clock = .ok (leaving node)) ∧
      (∀ node other, leaving node = leaving other ↔ node.toNat ≡ other.toNat [MOD length]) ∧
      ∀ nodes : Fin length → NodeId,
        (∀ i j, (nodes i).toNat ≡ (nodes j).toNat [MOD length] → i = j) →
        Function.Injective (fun i => leaving (nodes i)) ∧
        Set.range (fun i => (leaving (nodes i)).toNat) =
          (fun epoch => epoch * clock.slotsPerEpoch.toNat) ''
            Set.Icc (current + 1) (current + length) := by
  intro length current
  let next (node : NodeId) : Epoch :=
    networking.subnetParams.nextPeriodEpoch node (clock.epochAt slot)
  have hlength : 0 < length := Networking.periodEpochs_pos hvalid
  have hslots : 0 < clock.slotsPerEpoch.toNat := UInt64.lt_iff_toNat_lt.1 clock.slots_pos
  have hepochs : current + 2 * length < 2 ^ 64 :=
    (Nat.le_mul_of_pos_right _ hslots).trans_lt hfits
  have hwindow : ∀ node, current < (next node).toNat ∧ (next node).toNat ≤ current + length := by
    intro node
    exact ⟨UInt64.lt_iff_toNat_lt.1 (SubnetParams.lt_nextPeriodEpoch hlength hepochs node),
      SubnetParams.nextPeriodEpoch_le hlength hepochs node⟩
  have hnext : ∀ node other, next node = next other ↔ node.toNat ≡ other.toNat [MOD length] :=
    SubnetParams.nextPeriodEpoch_eq_iff hlength hepochs
  have hstart : ∀ node, (clock.startSlot (next node)).toNat =
      (next node).toNat * clock.slotsPerEpoch.toNat := by
    intro node
    have hsoon := (hwindow node).2
    have hslot : (next node).toNat * clock.slotsPerEpoch.toNat ≤
        (current + 2 * length) * clock.slotsPerEpoch.toNat := Nat.mul_le_mul_right _ (by omega)
    exact clock.toNat_startSlot_of_le (Nat.le_sub_one_of_lt (hslot.trans_lt hfits))
  have hleaving : ∀ node other, clock.startSlot (next node) = clock.startSlot (next other) ↔
      node.toNat ≡ other.toNat [MOD length] := by
    intro node other
    rw [← hnext, ← UInt64.toNat_inj, hstart, hstart, Nat.mul_left_inj hslots.ne', UInt64.toNat_inj]
  refine ⟨fun node => clock.startSlot (next node), ?_, hleaving, ?_⟩
  · intro node
    exact Networking.unsubscriptionSlot_eq_ok hvalid node slot clock
  · intro nodes hdifferent
    have hinjective : Function.Injective fun i => (next (nodes i)).toNat := by
      intro i j hsame
      exact hdifferent i j ((hnext _ _).1 (UInt64.toNat_inj.1 hsame))
    refine ⟨?_, ?_⟩
    · intro i j hsame
      exact hdifferent i j ((hleaving _ _).1 hsame)
    · rw [← range_eq_Icc hinjective fun i => hwindow (nodes i), ← Set.range_comp]
      exact congrArg Set.range (funext fun i => hstart (nodes i))

/-- Of 256 nodes with consecutive ids one leaves in the first slot of each of the epochs 101 to 356
if the current epoch is 100, and a node with an id 256 larger leaves together with one of them. -/
theorem unsubscriptionSlot_staggered_standard :
    ∃ clock : EpochClock, EpochClock.ofParts 32 12 4 = .ok clock ∧
      Networking.standard.validate = .ok () ∧
      ((clock.epochAt 3200).toNat + 2 * Networking.standard.epochsPerSubnetSubscription.toNat) *
        clock.slotsPerEpoch.toNat < 2 ^ 64 ∧
      ∃ leaving : NodeId → Slot,
        (∀ node, unsubscriptionSlot node 3200 .standard clock = .ok (leaving node)) ∧
        leaving 10 = leaving 266 ∧
        Set.range (fun i : Fin 256 => (leaving (BitVec.ofNat 256 i)).toNat) =
          (fun epoch => epoch * 32) '' Set.Icc 101 356 := by
  let clock : EpochClock := ⟨32, 12, 4, by decide, by decide⟩
  have hfits : ((clock.epochAt 3200).toNat +
      2 * Networking.standard.epochsPerSubnetSubscription.toNat) *
        clock.slotsPerEpoch.toNat < 2 ^ 64 := by decide
  rcases unsubscriptionSlot_staggered .standard clock 3200 rfl hfits with
    ⟨leaving, hleaving, hsame, hfill⟩
  have hid : ∀ i : Fin 256, (BitVec.ofNat 256 i).toNat = i := by
    intro i
    exact Nat.mod_eq_of_lt (i.isLt.trans (by decide))
  have hdifferent : ∀ i j : Fin 256, (BitVec.ofNat 256 i).toNat ≡ (BitVec.ofNat 256 j).toNat
      [MOD 256] → i = j := by
    intro i j hcongruent
    rw [hid, hid] at hcongruent
    exact Fin.ext (Nat.ModEq.eq_of_lt_of_lt hcongruent i.isLt j.isLt)
  have hslots : clock.slotsPerEpoch.toNat = 32 := by decide
  have hepochs : Set.Icc ((clock.epochAt 3200).toNat + 1) ((clock.epochAt 3200).toNat +
      Networking.standard.epochsPerSubnetSubscription.toNat) = Set.Icc 101 356 :=
    congrArg₂ Set.Icc (by decide) (by decide)
  have hrange := (hfill (fun i => BitVec.ofNat 256 i) hdifferent).2
  rw [hepochs, hslots] at hrange
  exact ⟨clock, rfl, rfl, hfits, leaving, hleaving, (hsame 10 266).2 (by decide), hrange⟩

end BeaconDuties
