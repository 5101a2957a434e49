import BeaconDuties.Proofs.Shuffle.Bijection
import BeaconDuties.Subnet

/-!
# Rotation — a node keeps its subnets until the slot it is told

The periods of a node have a fixed length and are shifted by its offset, so that period `k` starts
in the epoch `length * k - offset`.  A node's subnets are read off the period that an epoch lies in,
by one division; the slot in which it leaves them is found from the remainder of the epoch, by a
start that may have passed and another one a period later.  Far enough from the largest word both
agree:

* `SubnetParams.toNat_period`, `SubnetParams.toNat_nextPeriodEpoch` — both in exact numbers;
* `subscribedSubnet_eq`, `subscribedSubnetsFrom_eq` — a node's subnets in terms of where its leading
  bits are placed;
* `Networking.subscribedSubnets_congr` — epochs of one period have the same subnets;
* `unsubscriptionSlot_rotates` — the slot is the start of the next period.
-/

namespace BeaconDuties

/-! ## Starts of periods -/

section Periods

variable {length offset epoch later : Nat}

/-- The start of the next period, found from the start before the next multiple of the length. -/
theorem nextStart_eq (hoffset : offset < length) (epoch : Nat) :
    (if length * (epoch / length + 1) - offset ≤ epoch
      then length * (epoch / length + 1) - offset + length
      else length * (epoch / length + 1) - offset) =
        length * ((epoch + offset) / length + 1) - offset := by
  have hlength : 0 < length := Nat.zero_lt_of_lt hoffset
  have hsplit := Nat.div_add_mod epoch length
  have hremainder := Nat.mod_lt epoch hlength
  have hnumber : (epoch + offset) / length =
      epoch / length + if length ≤ epoch % length + offset then 1 else 0 := by
    rw [Nat.add_div hlength, Nat.div_eq_of_lt hoffset, Nat.mod_eq_of_lt hoffset, Nat.add_zero]
  have hmultiple : length * (epoch / length + 1) = length * (epoch / length) + length :=
    Nat.mul_add_one ..
  -- The start has passed just if the shift takes the epoch past the next multiple.
  by_cases hpassed : length ≤ epoch % length + offset
  · have hstart : length * (epoch / length + 1) - offset ≤ epoch := by omega
    have hlater : length * (epoch / length + 1 + 1) = length * (epoch / length + 1) + length :=
      Nat.mul_add_one ..
    rw [hnumber, if_pos hpassed, if_pos hstart]
    omega
  · have hstart : ¬ length * (epoch / length + 1) - offset ≤ epoch := by omega
    rw [hnumber, if_neg hpassed, if_neg hstart, Nat.add_zero]

theorem lt_nextStart (hoffset : offset < length) (epoch : Nat) :
    epoch < length * ((epoch + offset) / length + 1) - offset := by
  have hlast := Nat.lt_mul_div_succ (epoch + offset) (Nat.zero_lt_of_lt hoffset)
  omega

theorem nextStart_le (length offset epoch : Nat) :
    length * ((epoch + offset) / length + 1) - offset ≤ epoch + length := by
  have hfirst := Nat.mul_div_le (epoch + offset) length
  rw [Nat.mul_add_one]
  omega

/-- The number of the period stays the same up to the next start. -/
theorem number_eq_of_lt_nextStart (hle : epoch ≤ later)
    (hlt : later < length * ((epoch + offset) / length + 1) - offset) :
    (later + offset) / length = (epoch + offset) / length := by
  have hfirst := Nat.mul_div_le (epoch + offset) length
  apply Nat.div_eq_of_lt_le
  · rw [Nat.mul_comm]
    omega
  · rw [Nat.mul_comm]
    omega

theorem number_nextStart (hoffset : offset < length) (epoch : Nat) :
    (length * ((epoch + offset) / length + 1) - offset + offset) / length =
      (epoch + offset) / length + 1 := by
  have hlength : 0 < length := Nat.zero_lt_of_lt hoffset
  have hshift : offset ≤ length * ((epoch + offset) / length + 1) :=
    hoffset.le.trans (Nat.le_mul_of_pos_right length (Nat.succ_pos _))
  rw [Nat.sub_add_cancel hshift, Nat.mul_div_cancel_left _ hlength]

end Periods

namespace SubnetParams

variable {params : SubnetParams} {node : NodeId} {epoch : Epoch}

/-! ## Periods of a node -/

theorem toNat_offset (hlength : 0 < params.periodEpochs.toNat) (node : NodeId) :
    (params.offset node).toNat = node.toNat % params.periodEpochs.toNat := by
  have hremainder := Nat.mod_lt node.toNat hlength
  have hword : node.toNat % params.periodEpochs.toNat < UInt64.size :=
    hremainder.trans params.periodEpochs.toNat_lt
  exact UInt64.toNat_ofNat_of_lt' hword

theorem toNat_period_of_min (hlength : 0 < params.periodEpochs.toNat) (node : NodeId)
    (epoch : Epoch) :
    (params.period node epoch).toNat =
      min (epoch.toNat + node.toNat % params.periodEpochs.toNat) Saturating.maxWord /
        params.periodEpochs.toNat := by
  rw [period, UInt64.toNat_div, Saturating.toNat_add, toNat_offset hlength]

theorem toNat_period (hlength : 0 < params.periodEpochs.toNat)
    (hfits : epoch.toNat + params.periodEpochs.toNat ≤ 2 ^ 64) :
    (params.period node epoch).toNat =
      (epoch.toNat + node.toNat % params.periodEpochs.toNat) / params.periodEpochs.toNat := by
  have hmax : Saturating.maxWord = 2 ^ 64 - 1 := rfl
  have hremainder := Nat.mod_lt node.toNat hlength
  rw [toNat_period_of_min hlength, Nat.min_eq_left (by omega)]

/-- The start before the next multiple of the length, if that multiple is cut off. -/
theorem toNat_startBeforeMultiple (hlength : 0 < params.periodEpochs.toNat) (node : NodeId)
    (epoch : Epoch) :
    (Saturating.sub (Saturating.add epoch (params.periodEpochs - epoch % params.periodEpochs))
        (params.offset node)).toNat =
      min (params.periodEpochs.toNat * (epoch.toNat / params.periodEpochs.toNat + 1))
        Saturating.maxWord - node.toNat % params.periodEpochs.toNat := by
  have hremainder := Nat.mod_lt epoch.toNat hlength
  have hgap : (params.periodEpochs - epoch % params.periodEpochs).toNat =
      params.periodEpochs.toNat - epoch.toNat % params.periodEpochs.toNat :=
    UInt64.toNat_sub_of_le _ _ (UInt64.le_iff_toNat_le.2 hremainder.le)
  have hmultiple : epoch.toNat +
      (params.periodEpochs.toNat - epoch.toNat % params.periodEpochs.toNat) =
        params.periodEpochs.toNat * (epoch.toNat / params.periodEpochs.toNat + 1) := by
    have hsplit := Nat.div_add_mod epoch.toNat params.periodEpochs.toNat
    rw [Nat.mul_add_one]
    omega
  rw [Saturating.toNat_sub, Saturating.toNat_add, hgap, hmultiple, toNat_offset hlength]

/-- If the next multiple of the length is a word, the epoch found by way of the remainder is the
start of the period after the epoch's, or the largest word. -/
theorem toNat_nextPeriodEpoch_of_le (hlength : 0 < params.periodEpochs.toNat) (node : NodeId)
    (hmultiple : params.periodEpochs.toNat * (epoch.toNat / params.periodEpochs.toNat + 1) ≤
      Saturating.maxWord) :
    (params.nextPeriodEpoch node epoch).toNat =
      min (params.periodEpochs.toNat * ((epoch.toNat + node.toNat % params.periodEpochs.toNat) /
        params.periodEpochs.toNat + 1) - node.toNat % params.periodEpochs.toNat)
        Saturating.maxWord := by
  have hstart := toNat_startBeforeMultiple hlength node epoch
  rw [Nat.min_eq_left hmultiple] at hstart
  rw [nextPeriodEpoch, ← nextStart_eq (Nat.mod_lt node.toNat hlength), ← hstart]
  generalize Saturating.sub (Saturating.add epoch
    (params.periodEpochs - epoch % params.periodEpochs)) (params.offset node) = start at hstart ⊢
  by_cases hpassed : start ≤ epoch
  · have hpassed' : start.toNat ≤ epoch.toNat := UInt64.le_iff_toNat_le.1 hpassed
    rw [if_pos hpassed, if_pos hpassed', Saturating.toNat_add]
  · have hpassed' : ¬ start.toNat ≤ epoch.toNat := fun hle => hpassed (UInt64.le_iff_toNat_le.2 hle)
    rw [if_neg hpassed, if_neg hpassed', Nat.min_eq_left (Saturating.toNat_le start)]

theorem toNat_nextPeriodEpoch (hlength : 0 < params.periodEpochs.toNat) (node : NodeId)
    (hfits : epoch.toNat + 2 * params.periodEpochs.toNat < 2 ^ 64) :
    (params.nextPeriodEpoch node epoch).toNat =
      params.periodEpochs.toNat * ((epoch.toNat + node.toNat % params.periodEpochs.toNat) /
        params.periodEpochs.toNat + 1) - node.toNat % params.periodEpochs.toNat := by
  have hmax : Saturating.maxWord = 2 ^ 64 - 1 := rfl
  have hmultiple : params.periodEpochs.toNat * (epoch.toNat / params.periodEpochs.toNat + 1) ≤
      epoch.toNat + params.periodEpochs.toNat := by
    simpa using nextStart_le params.periodEpochs.toNat 0 epoch.toNat
  have hsoon := nextStart_le params.periodEpochs.toNat (node.toNat % params.periodEpochs.toNat)
    epoch.toNat
  rw [toNat_nextPeriodEpoch_of_le hlength node (by omega), Nat.min_eq_left (by omega)]

section NextPeriod

variable (hlength : 0 < params.periodEpochs.toNat)
  (hfits : epoch.toNat + 2 * params.periodEpochs.toNat < 2 ^ 64)

include hlength hfits

theorem lt_nextPeriodEpoch (node : NodeId) : epoch < params.nextPeriodEpoch node epoch := by
  have hnext := toNat_nextPeriodEpoch hlength node hfits
  apply UInt64.lt_iff_toNat_lt.2
  simpa [hnext] using lt_nextStart (Nat.mod_lt node.toNat hlength) epoch.toNat

theorem nextPeriodEpoch_le (node : NodeId) :
    (params.nextPeriodEpoch node epoch).toNat ≤ epoch.toNat + params.periodEpochs.toNat := by
  have hnext := toNat_nextPeriodEpoch hlength node hfits
  simpa [hnext] using
    nextStart_le params.periodEpochs.toNat (node.toNat % params.periodEpochs.toNat) epoch.toNat

/-- No epoch up to the next period is near enough to the largest word to be cut off. -/
theorem toNat_period_of_le_nextPeriodEpoch {later : Epoch}
    (hle : later ≤ params.nextPeriodEpoch node epoch) :
    (params.period node later).toNat =
      (later.toNat + node.toNat % params.periodEpochs.toNat) / params.periodEpochs.toNat := by
  have hsoon := nextPeriodEpoch_le hlength hfits node
  have hle' : later.toNat ≤ (params.nextPeriodEpoch node epoch).toNat :=
    UInt64.le_iff_toNat_le.1 hle
  exact toNat_period hlength (by omega)

theorem period_eq_of_lt_nextPeriodEpoch {later : Epoch} (hle : epoch ≤ later)
    (hlt : later < params.nextPeriodEpoch node epoch) :
    params.period node later = params.period node epoch := by
  have hstart := lt_nextPeriodEpoch hlength hfits node
  have hlt' := UInt64.lt_iff_toNat_lt.1 hlt
  rw [toNat_nextPeriodEpoch hlength node hfits] at hlt'
  apply UInt64.toNat_inj.1
  rw [toNat_period_of_le_nextPeriodEpoch hlength hfits (UInt64.le_of_lt hlt),
    toNat_period_of_le_nextPeriodEpoch hlength hfits (UInt64.le_of_lt hstart)]
  exact number_eq_of_lt_nextStart (UInt64.le_iff_toNat_le.1 hle) hlt'

theorem toNat_period_nextPeriodEpoch (node : NodeId) :
    (params.period node (params.nextPeriodEpoch node epoch)).toNat =
      (params.period node epoch).toNat + 1 := by
  have hstart := lt_nextPeriodEpoch hlength hfits node
  rw [toNat_period_of_le_nextPeriodEpoch hlength hfits (UInt64.le_refl _),
    toNat_period_of_le_nextPeriodEpoch hlength hfits (UInt64.le_of_lt hstart),
    toNat_nextPeriodEpoch hlength node hfits]
  exact number_nextStart (Nat.mod_lt node.toNat hlength) epoch.toNat

end NextPeriod

/-! ## Subnets of a period -/

theorem leadingBits_lt (hbits : params.prefixBits.toNat ≤ 32) (node : NodeId) :
    params.leadingBits node < 1 <<< params.prefixBits.toNat := by
  have hnode : node.toNat < 2 ^ (256 - params.prefixBits.toNat) * 2 ^ params.prefixBits.toNat := by
    have hwidth : 256 - params.prefixBits.toNat + params.prefixBits.toNat = 256 := by omega
    simpa [← Nat.pow_add, hwidth] using node.isLt
  simpa [leadingBits, Nat.shiftRight_eq_div_pow, Nat.one_shiftLeft] using
    Nat.div_lt_of_lt_mul hnode

/-- Leading bits are placed by the permutation of the period. -/
theorem placement_eq_positionPerm (hbits : params.prefixBits.toNat ≤ 32) (epoch : Epoch)
    (rounds : UInt8) (leading : Fin (2 ^ params.prefixBits.toNat))
    (hleading : params.leadingBits node = leading) :
    params.placement node epoch rounds =
      .ok (Shuffle.positionPerm (periodSeed (params.period node epoch))
        (2 ^ params.prefixBits.toNat) rounds leading) := by
  have hfits : 2 ^ params.prefixBits.toNat ≤ maxListSize := by
    rw [maxListSize_eq_two_pow]
    exact Nat.pow_le_pow_right (by decide) (by omega)
  rw [placement, hleading, Nat.one_shiftLeft]
  exact Shuffle.shuffledIndex_eq_ok _ rounds hfits leading

/-- The leading bits of a node are a position of the shuffle that places them. -/
theorem placement_eq_ok (hbits : params.prefixBits.toNat ≤ 32) (node : NodeId) (epoch : Epoch)
    (rounds : UInt8) :
    ∃ target < 2 ^ params.prefixBits.toNat, params.placement node epoch rounds = .ok target := by
  have hleading := leadingBits_lt hbits node
  rw [Nat.one_shiftLeft] at hleading
  exact ⟨_, Fin.isLt _, placement_eq_positionPerm hbits epoch rounds ⟨_, hleading⟩ rfl⟩

theorem placement_congr {later : Epoch} (rounds : UInt8)
    (hperiod : params.period node later = params.period node epoch) :
    params.placement node later rounds = params.placement node epoch rounds := by
  rw [placement, hperiod, placement]

end SubnetParams

section Subscriptions

variable {params : SubnetParams} {networking : Networking} {node : NodeId} {epoch later : Epoch}

theorem subscribedSubnet_eq (hparams : SubnetParams.ofNetworking networking = .ok params)
    (node : NodeId) (epoch : Epoch) (index : UInt64) (rounds : UInt8) :
    subscribedSubnet node epoch index networking rounds =
      (params.placement node epoch rounds).map fun placement =>
        (UInt64.ofNat placement + index) % params.subnetCount := by
  rw [subscribedSubnet, hparams]

/-- A node's subnets depend on an epoch through its period alone. -/
theorem subscribedSubnetsFrom_congr (hparams : SubnetParams.ofNetworking networking = .ok params)
    (rounds : UInt8) (hperiod : params.period node later = params.period node epoch)
    (remaining : Nat) (index : UInt64) :
    subscribedSubnetsFrom node later networking rounds remaining index =
      subscribedSubnetsFrom node epoch networking rounds remaining index := by
  induction remaining generalizing index with
  | zero => rfl
  | succ remaining ih =>
    have hsubnet : subscribedSubnet node later index networking rounds =
        subscribedSubnet node epoch index networking rounds := by
      simp [subscribedSubnet_eq hparams, SubnetParams.placement_congr rounds hperiod]
    simp [subscribedSubnetsFrom, hsubnet, ih]

/-- The subnets in consecutive places of a node, from where its leading bits are placed. -/
theorem subscribedSubnetsFrom_eq (hparams : SubnetParams.ofNetworking networking = .ok params)
    {rounds : UInt8} {target : Nat} (htarget : params.placement node epoch rounds = .ok target)
    (remaining : Nat) (index : UInt64) :
    subscribedSubnetsFrom node epoch networking rounds remaining index =
      .ok ((List.range remaining).map fun place =>
        (UInt64.ofNat target + (index + UInt64.ofNat place)) % params.subnetCount) := by
  induction remaining generalizing index with
  | zero => rfl
  | succ remaining ih =>
    have hfirst : subscribedSubnet node epoch index networking rounds =
        .ok ((UInt64.ofNat target + index) % params.subnetCount) := by
      rw [subscribedSubnet_eq hparams, htarget]
      rfl
    have hshift : ∀ place : Nat, index + 1 + UInt64.ofNat place =
        index + UInt64.ofNat (place + 1) := by
      intro place
      rw [UInt64.ofNat_add, UInt64.add_assoc, UInt64.add_comm 1]
      rfl
    rw [subscribedSubnetsFrom, hfirst, ih (index + 1), List.range_succ_eq_map]
    simp [Except.map, hshift]

/-- With a prefix of at most 32 bits no place of a node is refused. -/
theorem subscribedSubnetsFrom_eq_ok (hparams : SubnetParams.ofNetworking networking = .ok params)
    (hbits : params.prefixBits.toNat ≤ 32) (node : NodeId) (epoch : Epoch) (rounds : UInt8)
    (remaining : Nat) (index : UInt64) :
    ∃ subnets,
      subscribedSubnetsFrom node epoch networking rounds remaining index = .ok subnets := by
  rcases SubnetParams.placement_eq_ok hbits node epoch rounds with ⟨target, _, htarget⟩
  exact ⟨_, subscribedSubnetsFrom_eq hparams htarget remaining index⟩

theorem unsubscriptionSlot_eq (hparams : SubnetParams.ofNetworking networking = .ok params)
    (node : NodeId) (slot : Slot) (clock : EpochClock) :
    unsubscriptionSlot node slot networking clock =
      .ok (clock.startSlot (params.nextPeriodEpoch node (clock.epochAt slot))) := by
  rw [unsubscriptionSlot, hparams]
  rfl

end Subscriptions

/-! ## Valid constants -/

namespace Networking

variable {networking : Networking}

theorem validate_eq_ok_iff : networking.validate = .ok () ↔
    networking.attestationSubnetCount ≠ 0 ∧
      networking.subnetsPerNode ≤ networking.attestationSubnetCount ∧
      (networking.attestationSubnetPrefixBits ≠ 0 ∧ networking.attestationSubnetPrefixBits ≤ 32) ∧
      networking.epochsPerSubnetSubscription ≠ 0 := by
  rw [validate]
  split_ifs with hcount hperNode hbits hlength
  · simp [hcount]
  · simp [UInt64.not_le.2 hperNode]
  · rcases hbits with hnone | hmany
    · simp [hnone]
    · simp [UInt8.not_le.2 hmany]
  · simp [hlength]
  · simp [hcount, UInt64.not_lt.1 hperNode, hlength, not_or.1 hbits, UInt8.not_lt.1]

def subnetParams (networking : Networking) : SubnetParams :=
  ⟨networking.attestationSubnetCount, networking.attestationSubnetPrefixBits,
    networking.epochsPerSubnetSubscription⟩

section Valid

variable (hvalid : networking.validate = .ok ())

include hvalid

/-- Valid constants are accepted as they are. -/
theorem ofNetworking_eq_ok :
    SubnetParams.ofNetworking networking = .ok networking.subnetParams := by
  rcases validate_eq_ok_iff.1 hvalid with ⟨hcount, _, ⟨hbits, hbits'⟩, hlength⟩
  simp [SubnetParams.ofNetworking, subnetParams, hcount, hlength, hbits, hbits']

theorem subnetCount_pos : 0 < networking.attestationSubnetCount.toNat := by
  rcases validate_eq_ok_iff.1 hvalid with ⟨hcount, _⟩
  exact UInt64.lt_iff_toNat_lt.1 (UInt64.pos_iff_ne_zero.2 hcount)

theorem periodEpochs_pos : 0 < networking.subnetParams.periodEpochs.toNat := by
  rcases validate_eq_ok_iff.1 hvalid with ⟨_, _, _, hlength⟩
  apply Nat.pos_of_ne_zero
  intro hzero
  exact hlength (UInt64.toNat_inj.1 hzero)

theorem prefixBits_le : networking.subnetParams.prefixBits.toNat ≤ 32 := by
  rcases validate_eq_ok_iff.1 hvalid with ⟨_, _, ⟨_, hbits⟩, _⟩
  exact UInt8.le_iff_toNat_le.1 hbits

theorem exists_subscribedSubnets (node : NodeId) (epoch : Epoch) (rounds : UInt8) :
    ∃ subnets, subscribedSubnets node epoch networking rounds = .ok subnets :=
  subscribedSubnetsFrom_eq_ok (ofNetworking_eq_ok hvalid) (prefixBits_le hvalid) node epoch rounds
    networking.subnetsPerNode.toNat 0

/-- During a period a node keeps its subnets. -/
theorem subscribedSubnets_congr {node : NodeId} {epoch later : Epoch} (rounds : UInt8)
    (hperiod : networking.subnetParams.period node later =
      networking.subnetParams.period node epoch) :
    subscribedSubnets node later networking rounds =
      subscribedSubnets node epoch networking rounds :=
  subscribedSubnetsFrom_congr (ofNetworking_eq_ok hvalid) rounds hperiod
    networking.subnetsPerNode.toNat 0

theorem unsubscriptionSlot_eq_ok (node : NodeId) (slot : Slot) (clock : EpochClock) :
    unsubscriptionSlot node slot networking clock =
      .ok (clock.startSlot
        (networking.subnetParams.nextPeriodEpoch node (clock.epochAt slot))) :=
  unsubscriptionSlot_eq (ofNetworking_eq_ok hvalid) node slot clock

end Valid

end Networking

/-! ## Rotation -/

/-- Under valid constants, and with two periods to go before the slots run out, a node leaves its
subnets in the first slot of an epoch at most one period away.  Up to that epoch it holds the same
subnets, which are those of one period number, and there the number grows by one.  The number of a
period seeds the shuffle that places the leading bits of the node. -/
theorem unsubscriptionSlot_rotates (node : NodeId) (networking : Networking) (clock : EpochClock)
    (rounds : UInt8) (slot : Slot) (hvalid : networking.validate = .ok ())
    (hfits : ((clock.epochAt slot).toNat + 2 * networking.epochsPerSubnetSubscription.toNat) *
      clock.slotsPerEpoch.toNat < 2 ^ 64) :
    let length := networking.epochsPerSubnetSubscription.toNat
    let bits := networking.attestationSubnetPrefixBits.toNat
    let number (epoch : Epoch) := (epoch.toNat + node.toNat % length) / length
    let current := clock.epochAt slot
    ∃ (next : Epoch) (leaving : Slot) (subnets : List SubnetId),
      unsubscriptionSlot node slot networking clock = .ok leaving ∧
      leaving.toNat = next.toNat * clock.slotsPerEpoch.toNat ∧
      current < next ∧ next.toNat ≤ current.toNat + length ∧
      (∀ epoch, current ≤ epoch → epoch < next →
        subscribedSubnets node epoch networking rounds = .ok subnets ∧
          number epoch = number current) ∧
      number next = number current + 1 ∧
      ∀ epoch index, current ≤ epoch → epoch ≤ next →
        subscribedSubnet node epoch index networking rounds =
          (Shuffle.shuffledIndex (node.toNat >>> (256 - bits)) (2 ^ bits)
            (Sha256.hash (Bytes.littleEndian 8 (number epoch)).toArray) rounds).map fun placement =>
              (UInt64.ofNat placement + index) % networking.attestationSubnetCount := by
  intro length bits number current
  let params := networking.subnetParams
  let next := params.nextPeriodEpoch node current
  have hlength : 0 < length := Networking.periodEpochs_pos hvalid
  -- An epoch has some slot, so the epochs of two more periods are words as well.
  have hslots : 0 < clock.slotsPerEpoch.toNat := UInt64.lt_iff_toNat_lt.1 clock.slots_pos
  have hepochs : current.toNat + 2 * length < 2 ^ 64 :=
    (Nat.le_mul_of_pos_right _ hslots).trans_lt hfits
  have hlater : current < next := SubnetParams.lt_nextPeriodEpoch hlength hepochs node
  have hsoon : next.toNat ≤ current.toNat + length :=
    SubnetParams.nextPeriodEpoch_le hlength hepochs node
  have hslot : next.toNat * clock.slotsPerEpoch.toNat ≤
      (current.toNat + 2 * length) * clock.slotsPerEpoch.toNat :=
    Nat.mul_le_mul_right _ (by omega)
  have hnumber : ∀ epoch, epoch ≤ next → (params.period node epoch).toNat = number epoch := by
    intro epoch hle
    exact SubnetParams.toNat_period_of_le_nextPeriodEpoch hlength hepochs hle
  have hcurrent := hnumber current (UInt64.le_of_lt hlater)
  rcases Networking.exists_subscribedSubnets hvalid node current rounds with ⟨subnets, hsubnets⟩
  refine ⟨next, clock.startSlot next, subnets, ?_, ?_, hlater, hsoon, ?_, ?_, ?_⟩
  · exact Networking.unsubscriptionSlot_eq_ok hvalid node slot clock
  · exact clock.toNat_startSlot_of_le (Nat.le_sub_one_of_lt (hslot.trans_lt hfits))
  · intro epoch hle hlt
    have hsame : params.period node epoch = params.period node current :=
      SubnetParams.period_eq_of_lt_nextPeriodEpoch hlength hepochs hle hlt
    refine ⟨(Networking.subscribedSubnets_congr hvalid rounds hsame).trans hsubnets, ?_⟩
    rw [← hnumber epoch (UInt64.le_of_lt hlt), hsame, hcurrent]
  · rw [← hnumber next (UInt64.le_refl next), ← hcurrent]
    exact SubnetParams.toNat_period_nextPeriodEpoch hlength hepochs node
  · intro epoch index _ hle
    rw [subscribedSubnet_eq (Networking.ofNetworking_eq_ok hvalid), SubnetParams.placement,
      SubnetParams.periodSeed, hnumber epoch hle, Nat.one_shiftLeft]
    rfl

/-- A node whose offset is ten leaves, in epoch 100 of the usual constants, at the start of epoch
246. -/
theorem unsubscriptionSlot_rotates_standard :
    ∃ clock : EpochClock, EpochClock.ofParts 32 12 4 = .ok clock ∧
      Networking.standard.validate = .ok () ∧
      ((clock.epochAt 3200).toNat + 2 * Networking.standard.epochsPerSubnetSubscription.toNat) *
        clock.slotsPerEpoch.toNat < 2 ^ 64 ∧
      unsubscriptionSlot 10 3200 .standard clock = .ok 7872 ∧
      ∃ subnets, ∀ epoch, 100 ≤ epoch → epoch < 246 →
        subscribedSubnets 10 epoch .standard 90 = .ok subnets := by
  have hslot : unsubscriptionSlot 10 3200 .standard ⟨32, 12, 4, by decide, by decide⟩ =
      .ok 7872 := by cbv
  refine ⟨⟨32, 12, 4, by decide, by decide⟩, rfl, rfl, by decide, hslot, ?_⟩
  rcases unsubscriptionSlot_rotates 10 .standard ⟨32, 12, 4, by decide, by decide⟩ 90 3200 rfl
    (by decide) with ⟨next, leaving, subnets, hleaving, hstart, _, _, hstays, _⟩
  have hsame : leaving = 7872 := Except.ok.inj (hleaving.symm.trans hslot)
  have hnext : next = 246 := by
    have hproduct : (7872 : UInt64).toNat = next.toNat * 32 := by
      rw [← hsame]
      exact hstart
    have hword : (7872 : UInt64).toNat = 246 * 32 := by decide
    apply UInt64.toNat_inj.1
    exact Nat.eq_of_mul_eq_mul_right (by decide) (hproduct.symm.trans hword)
  refine ⟨subnets, ?_⟩
  intro epoch hle hlt
  exact (hstays epoch hle (by rwa [hnext])).1

end BeaconDuties
