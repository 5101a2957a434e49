import BeaconDuties.Proofs.Subnet.Places

/-!
# Load — every subnet is held for about as many prefixes

During a period the shuffle takes the prefixes of the node ids one to one to as many numbers, and a
place adds its own number to each.  What is reduced modulo the number of subnets is therefore a
window of consecutive numbers, each of them once, and in such a window every remainder occurs about
equally often: once in each whole round, and at most once more in the rest.  Which node stands for a
prefix does not matter, nor in which of its epochs, as long as all of them are in the period of the
same number.

* `card_window_rounds`, `card_window_eq` — remainders in a window of consecutive numbers;
* `injective_of_shares` — values that no two places share;
* `Networking.Representatives` — a node and an epoch for every prefix;
* `Networking.Representatives.exists_perm` — where the representatives are placed;
* `subscribedSubnet_balanced` — how many prefixes hold a subnet.
-/

namespace BeaconDuties

open Finset

/-! ## Remainders in a window -/

section Window

variable {count : Nat}

/-- Every remainder occurs once in each whole round. -/
theorem card_window_rounds (hcount : 0 < count) (first rounds remainder : Nat) :
    #{x ∈ Ico first (first + rounds * count) | x ≡ remainder [MOD count]} = rounds := by
  have hcard := Nat.Ico_filter_modEq_card first (first + rounds * count) hcount remainder
  have hcount' : (count : ℚ) ≠ 0 := Nat.cast_ne_zero.2 hcount.ne'
  have hratio : (((first + rounds * count : ℕ) : ℚ) - remainder) / count =
      (first - remainder) / count + rounds := by
    push_cast
    field_simp
    ring
  rw [hratio, Int.ceil_add_natCast, add_sub_cancel_left, max_eq_left (by simp)] at hcard
  exact_mod_cast hcard

/-- In a window of any size it occurs once in each whole round, and at most once in the rest. -/
theorem card_window_eq (hcount : 0 < count) (first size remainder : Nat) :
    let occurrences := #{x ∈ Ico first (first + size) | x ≡ remainder [MOD count]}
    occurrences = size / count ∨ occurrences = size ⌈/⌉ count := by
  intro occurrences
  have hgrows : ∀ {small large : Nat}, small ≤ large →
      #{x ∈ Ico first (first + small) | x ≡ remainder [MOD count]} ≤
        #{x ∈ Ico first (first + large) | x ≡ remainder [MOD count]} := by
    intro small large hle
    exact card_le_card (filter_subset_filter _ (Ico_subset_Ico_right (by omega)))
  have hwhole : size / count ≤ occurrences := by
    simpa [card_window_rounds hcount] using hgrows (Nat.div_mul_le_self size count)
  have hcovered : size ≤ (size ⌈/⌉ count) * count := by
    simpa [Nat.mul_comm] using le_smul_ceilDiv (b := size) hcount
  have hfull : occurrences ≤ size ⌈/⌉ count := by
    simpa [card_window_rounds hcount] using hgrows hcovered
  -- The two bounds are at most one apart.
  have hclose : size ⌈/⌉ count ≤ size / count + 1 := by
    apply (ceilDiv_le_iff_le_smul hcount).2
    exact (Nat.lt_mul_div_succ size hcount).le
  omega

/-- A permutation moved into a window meets every number of the window once. -/
theorem card_perm_window {size : Nat} (perm : Equiv.Perm (Fin size)) (first : Nat)
    {remainder : Nat} (hremainder : remainder < count) :
    #{i : Fin size | ((perm i).val + first) % count = remainder} =
      #{x ∈ Ico first (first + size) | x ≡ remainder [MOD count]} := by
  apply card_bij fun i _ => (perm i).val + first
  · intro i hi
    have hbound := (perm i).isLt
    have hsame := (mem_filter.1 hi).2
    rw [mem_filter, mem_Ico]
    refine ⟨by omega, ?_⟩
    rw [Nat.ModEq, hsame, Nat.mod_eq_of_lt hremainder]
  · intro i _ j _ hij
    exact perm.injective (Fin.ext (Nat.add_right_cancel hij))
  · intro x hx
    rcases mem_filter.1 hx with ⟨hwindow, hsame⟩
    rcases mem_Ico.1 hwindow with ⟨hfirst, hlast⟩
    rw [Nat.ModEq, Nat.mod_eq_of_lt hremainder] at hsame
    have hback : x - first + first = x := Nat.sub_add_cancel hfirst
    refine ⟨perm.symm ⟨x - first, by omega⟩, ?_, ?_⟩
    · simpa [hback] using hsame
    · simpa using hback

/-- If no value is taken more often than its share of at most one, all values are different. -/
theorem injective_of_shares {α : Type} [DecidableEq α] {size : Nat} {value : Fin size → α}
    (hcount : 0 < count) (hmany : size ≤ count)
    (hshare : ∀ i, #{k | value k = value i} = size / count ∨
      #{k | value k = value i} = size ⌈/⌉ count) : Function.Injective value := by
  intro i j hsame
  have hone : #{k | value k = value i} ≤ 1 := by
    rcases hshare i with hfloor | hceil
    · rw [hfloor]
      exact Nat.div_le_of_le_mul (by simpa using hmany)
    · rw [hceil]
      exact (ceilDiv_le_iff_le_smul hcount).2 (by simpa using hmany)
  exact card_le_one.1 hone i (by simp) j (by simp [hsame])

end Window

/-! ## Representatives of the prefixes -/

/-- A node for each of the leading bits that there are, and for each node an epoch in its period of
the given number, too early for the sum of epoch and offset to be cut off. -/
structure Networking.Representatives (networking : Networking) (number : Nat) where
  node : Fin (2 ^ networking.attestationSubnetPrefixBits.toNat) → NodeId
  epoch : Fin (2 ^ networking.attestationSubnetPrefixBits.toNat) → Epoch
  leading : ∀ i, (node i).toNat >>> (256 - networking.attestationSubnetPrefixBits.toNat) = i
  fits : ∀ i, (epoch i).toNat + (node i).toNat % networking.epochsPerSubnetSubscription.toNat <
    2 ^ 64
  number_eq : ∀ i, ((epoch i).toNat +
    (node i).toNat % networking.epochsPerSubnetSubscription.toNat) /
      networking.epochsPerSubnetSubscription.toNat = number

namespace Networking.Representatives

variable {networking : Networking} {number : Nat}

theorem period_eq (representatives : networking.Representatives number)
    (hvalid : networking.validate = .ok ())
    (i : Fin (2 ^ networking.attestationSubnetPrefixBits.toNat)) :
    networking.subnetParams.period (representatives.node i) (representatives.epoch i) =
      UInt64.ofNat number := by
  have hperiod := SubnetParams.toNat_period_of_min (periodEpochs_pos hvalid)
    (representatives.node i) (representatives.epoch i)
  have hfits : (representatives.epoch i).toNat +
      (representatives.node i).toNat % networking.subnetParams.periodEpochs.toNat ≤
        Saturating.maxWord := Nat.le_sub_one_of_lt (representatives.fits i)
  rw [Nat.min_eq_left hfits] at hperiod
  have hnumber : (networking.subnetParams.period (representatives.node i)
      (representatives.epoch i)).toNat = number := hperiod.trans (representatives.number_eq i)
  exact UInt64.ofNat_toNat.symm.trans (congrArg UInt64.ofNat hnumber)

/-- One permutation places all representatives. -/
theorem exists_perm (representatives : networking.Representatives number)
    (hvalid : networking.validate = .ok ()) (rounds : UInt8) :
    ∃ perm : Equiv.Perm (Fin (2 ^ networking.attestationSubnetPrefixBits.toNat)),
      ∀ i, networking.subnetParams.placement (representatives.node i) (representatives.epoch i)
        rounds = .ok (perm i) := by
  refine ⟨Shuffle.positionPerm (SubnetParams.periodSeed (UInt64.ofNat number)) _ rounds, ?_⟩
  intro i
  rw [SubnetParams.placement_eq_positionPerm (prefixBits_le hvalid) (representatives.epoch i)
    rounds i (representatives.leading i), representatives.period_eq hvalid]
  rfl

end Networking.Representatives

/-! ## Load -/

/-- In one place of nodes that represent all prefixes, during their periods of one number, every
subnet is held for as many prefixes as there are to each subnet, rounded down or up.  The number of
the place is such that no sum is cut off.  With at least as many subnets as prefixes, different
prefixes hold different subnets. -/
theorem subscribedSubnet_balanced (networking : Networking) (rounds : UInt8) (number : Nat)
    (index : UInt64) (representatives : networking.Representatives number)
    (hvalid : networking.validate = .ok ())
    (hindex : index.toNat + 2 ^ networking.attestationSubnetPrefixBits.toNat ≤ 2 ^ 64) :
    let prefixes := 2 ^ networking.attestationSubnetPrefixBits.toNat
    let count := networking.attestationSubnetCount.toNat
    ∃ subnet : Fin prefixes → SubnetId,
      (∀ i, subscribedSubnet (representatives.node i) (representatives.epoch i) index networking
        rounds = .ok (subnet i)) ∧
      (∀ held < networking.attestationSubnetCount,
        let holders := #{i | subnet i = held}
        holders = prefixes / count ∨ holders = prefixes ⌈/⌉ count) ∧
      (prefixes ≤ count → Function.Injective subnet) := by
  intro prefixes count
  have hcount : 0 < count := Networking.subnetCount_pos hvalid
  rcases representatives.exists_perm hvalid rounds with ⟨perm, hperm⟩
  let subnet (i : Fin prefixes) : SubnetId :=
    (UInt64.ofNat (perm i) + index) % networking.attestationSubnetCount
  have hnumber : ∀ i, (subnet i).toNat = ((perm i).val + index.toNat) % count := by
    intro i
    have hword : (perm i).val + index.toNat < 2 ^ 64 := by
      rw [Nat.add_comm]
      exact (Nat.add_lt_add_left (perm i).isLt _).trans_le hindex
    rw [toNat_add_mod, Nat.mod_eq_of_lt hword]
  have hshare : ∀ held < networking.attestationSubnetCount,
      let holders := #{i | subnet i = held}
      holders = prefixes / count ∨ holders = prefixes ⌈/⌉ count := by
    intro held hheld
    have hremainder : held.toNat < count := UInt64.lt_iff_toNat_lt.1 hheld
    have hholders : #{i | subnet i = held} =
        #{i | ((perm i).val + index.toNat) % count = held.toNat} := by
      apply congrArg Finset.card
      apply Finset.filter_congr
      intro i _
      rw [← hnumber, UInt64.toNat_inj]
    rw [hholders, card_perm_window perm index.toNat hremainder]
    exact card_window_eq hcount index.toNat prefixes held.toNat
  refine ⟨subnet, ?_, hshare, ?_⟩
  · intro i
    rw [subscribedSubnet_eq (Networking.ofNetworking_eq_ok hvalid), hperm]
    rfl
  · intro hmany
    apply injective_of_shares hcount hmany
    intro i
    apply hshare
    apply UInt64.lt_iff_toNat_lt.2
    rw [hnumber]
    exact Nat.mod_lt _ hcount

/-- Four prefixes and three subnets: each subnet is held for one prefix or for two. -/
theorem subscribedSubnet_balanced_four :
    let networking : Networking :=
      { Networking.standard with attestationSubnetCount := 3, attestationSubnetPrefixBits := 2 }
    let node (i : Fin 4) : NodeId := BitVec.ofNat 256 (i.val <<< 254 + i.val)
    networking.validate = .ok () ∧
      (5 : UInt64).toNat + 2 ^ networking.attestationSubnetPrefixBits.toNat ≤ 2 ^ 64 ∧
      ∃ subnet : Fin 4 → SubnetId,
        (∀ i, subscribedSubnet (node i) 300 5 networking 90 = .ok (subnet i)) ∧
        ∀ held < 3, #{i | subnet i = held} = 1 ∨ #{i | subnet i = held} = 2 := by
  intro networking node
  -- The offsets differ, but epoch 300 is in the second period of all four.
  let representatives : networking.Representatives 1 :=
    ⟨node, fun _ => 300, by decide, by decide, by decide⟩
  have hindex : (5 : UInt64).toNat + 2 ^ networking.attestationSubnetPrefixBits.toNat ≤ 2 ^ 64 := by
    decide
  rcases subscribedSubnet_balanced networking 90 1 5 representatives rfl hindex with
    ⟨subnet, hsubnet, hshare, _⟩
  have hfloor : 2 ^ networking.attestationSubnetPrefixBits.toNat /
      networking.attestationSubnetCount.toNat = 1 := by decide
  have hceil : 2 ^ networking.attestationSubnetPrefixBits.toNat ⌈/⌉
      networking.attestationSubnetCount.toNat = 2 := by decide
  rw [hfloor, hceil] at hshare
  exact ⟨rfl, hindex, subnet, hsubnet, hshare⟩

end BeaconDuties
