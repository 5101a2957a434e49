import BeaconDuties.Proofs.Permutation.Counting
import BeaconDuties.Proofs.ShuffleCache.Transparency

/-!
# Cover — which committees the check of a partition accepts

The check compares the number of members with the number of validators, and then refuses members
that are not listed or sit twice.  It never asks whether everybody sits somewhere: with nobody twice
and nobody from outside, the numbers leave no one out.  If the list names somebody twice, there are
fewer validators than entries, so whatever committees are offered are refused.

The committees of one shuffle pass, whether each is cut from a fresh shuffle or all of them over one
cache.

* `Committee.checkMembers_eq_ok_iff` — the check of members against who was seen before;
* `Committee.checkPartition_eq_ok_iff` — what passes is an arrangement of a list without repetitions;
* `Committee.slices` — the committees of a shuffle;
* `Committee.value_computeFrom`, `Committee.value_computeAll` — committees in a row over one cache;
* `Committee.checkPartition_accepts` — what is accepted, and that computed committees are.
-/

namespace BeaconDuties

namespace Committee

/-! ## The check -/

section Check

variable {expected seen : Std.HashSet ValidatorIndex} {members : List ValidatorIndex}
  {committees : List (Array ValidatorIndex)} {indices : Array ValidatorIndex}

/-- Members pass just if all are expected, no two are the same and none was seen before. -/
theorem checkMembers_eq_ok_iff :
    checkMembers expected seen members = .ok () ↔
      (∀ member ∈ members, member ∈ expected) ∧ members.Nodup ∧
        ∀ member ∈ members, member ∉ seen := by
  fun_induction checkMembers expected seen members with
  | case1 => simp
  | case2 seen member rest hforeign => simp_all
  | case3 seen member rest hexpected hseen => simp_all
  | case4 seen member rest hexpected hunseen ih =>
    have hlisted : member ∈ expected := by simpa using hexpected
    have hnew : member ∉ seen := by simpa using hunseen
    -- Who sits later has not been seen by then just if it is not this member either.
    simp only [ih, Std.HashSet.mem_insert, beq_iff_eq, not_or, List.forall_mem_cons, hlisted, hnew,
      not_false_eq_true, true_and]
    exact and_congr_right' nodup_and_forall_ne_iff

theorem checkPartition_eq_ok_iff :
    checkPartition committees indices = .ok () ↔
      indices.toList.Nodup ∧ (committees.flatMap Array.toList).Perm indices.toList := by
  have hsize : indices.toList.length = indices.size := Array.length_toList
  rw [nodup_and_perm_iff, hsize, checkPartition]
  split_ifs with hcount
  · exact iff_of_false (by simp) fun hcover => hcount hcover.1
  · rw [checkMembers_eq_ok_iff]
    simp [not_not.1 hcount, List.subset_def]

end Check

/-! ## The committees of a shuffle -/

variable {indices : Array ValidatorIndex} {seed : Seed} {rounds : UInt8} {count : Nat}

/-- All slices of a shuffle. -/
def slices (shuffle : ShuffledList) (count : Nat) : List (Array ValidatorIndex) :=
  (List.range count).map fun index =>
    shuffle.extract (edge shuffle.size count index) (edge shuffle.size count (index + 1))

theorem length_slices (shuffle : ShuffledList) (count : Nat) :
    (slices shuffle count).length = count := by
  simp [slices]

/-- The slices of a shuffle are all of it. -/
theorem flatMap_toList_slices (shuffle : ShuffledList) (hcount : 0 < count) :
    (slices shuffle count).flatMap Array.toList = shuffle.toList := by
  rw [slices, List.flatMap_map, flatMap_slices, edge_count _ hcount, Array.extract_size]

theorem value_compute_eq_slices (seed : Seed) (rounds : UInt8)
    (hfits : indices.size ≤ maxListSize) {index : Nat}
    (hindex : index < (slices (Shuffle.walkRounds seed indices rounds) count).length) :
    (compute indices seed index count rounds).value =
      .ok (slices (Shuffle.walkRounds seed indices rounds) count)[index] := by
  rw [value_compute_of_lt seed rounds (by rwa [length_slices] at hindex) hfits]
  simp [slices, Shuffle.size_walkRounds]

/-! ## Committees over one cache -/

/-- The requests for all committees of a seed. -/
def requests (indices : Array ValidatorIndex) (seed : Seed) (count : Nat) (rounds : UInt8) :
    List CacheStep :=
  (List.range count).map fun index => .committee indices seed index count rounds

theorem mem_requests_iff {step : CacheStep} :
    step ∈ requests indices seed count rounds ↔
      ∃ index < count, .committee indices seed index count rounds = step := by
  simp [requests]

theorem seedDetermined_requests (indices : Array ValidatorIndex) (seed : Seed) (count : Nat)
    (rounds : UInt8) : CacheStep.SeedDetermined (requests indices seed count rounds) := by
  constructor
  · intro other compute hstep
    rcases mem_requests_iff.1 hstep with ⟨index, _, hsame⟩
    cases hsame
  · intro other indices₁ index₁ count₁ rounds₁ indices₂ index₂ count₂ rounds₂ hfirst hsecond
    rcases mem_requests_iff.1 hfirst with ⟨_, _, hsame⟩
    cases hsame
    rcases mem_requests_iff.1 hsecond with ⟨_, _, hsame⟩
    cases hsame
    exact ⟨rfl, rfl⟩

theorem faithful_requests {cache : ShuffleCache}
    (hheld : ∀ held, cache.store.get? seed = some held →
      Shuffle.shuffled indices seed rounds = .ok held) :
    cache.Faithful (requests indices seed count rounds) := by
  intro other held hother indices' index' count' rounds' hstep
  rcases mem_requests_iff.1 hstep with ⟨_, _, hsame⟩
  cases hsame
  exact hheld held hother

/-- Over a cache that serves no other shuffle for the seed, committees come out as if each were cut
from a fresh one. -/
theorem value_computeFrom (hfits : indices.size ≤ maxListSize) (remaining index : Nat)
    (hcount : index + remaining ≤ count) (cache : ShuffleCache)
    (hfaithful : cache.Faithful (requests indices seed count rounds)) :
    (computeFrom indices seed count rounds remaining index cache).value.1 =
      .ok (((slices (Shuffle.walkRounds seed indices rounds) count).drop index).take remaining) := by
  -- The cache stays faithful to all requests, so each step may assume it of the cache it gets.
  induction remaining generalizing index cache with
  | zero => simp [computeFrom]
  | succ remaining ih =>
    have hindex : index < count := by omega
    have hslice : index < (slices (Shuffle.walkRounds seed indices rounds) count).length := by
      rwa [length_slices]
    rcases ShuffleCache.value_computeCached (seedDetermined_requests indices seed count rounds)
      hfaithful (mem_requests_iff.2 ⟨index, hindex, rfl⟩) with ⟨hfirst, hkept⟩
    rw [value_compute_eq_slices seed rounds hfits hslice] at hfirst
    cases hvalue : (computeCached indices seed index count rounds cache).value with
    | mk first kept =>
      rw [hvalue] at hfirst hkept
      have hothers := ih (index + 1) (by omega) kept hkept
      rw [List.drop_eq_getElem_cons hslice, List.take_succ_cons]
      simp only [computeFrom, Reported.value_bind, hvalue, hfirst, hothers, Reported.value_pure,
        Except.map]

theorem value_computeAll (hfits : indices.size ≤ maxListSize) {cache : ShuffleCache}
    (hheld : ∀ held, cache.store.get? seed = some held →
      Shuffle.shuffled indices seed rounds = .ok held) :
    (computeAll indices seed count rounds cache).value.1 =
      .ok (slices (Shuffle.walkRounds seed indices rounds) count) := by
  have hall := value_computeFrom hfits count 0 (Nat.zero_add count).le cache
    (faithful_requests hheld)
  rwa [List.drop_zero, List.take_of_length_le (length_slices _ _).le] at hall

/-- The check accepts committees just if the list has no repetitions and the members, one committee
after the other, are an arrangement of it.  So for a list without repetitions it accepts the
committees of each count, seed and number of rounds, cut one by one from fresh shuffles or all of
them over one cache, as long as that cache holds no other shuffle for the seed. -/
theorem checkPartition_accepts (indices : Array ValidatorIndex) :
    (∀ committees, checkPartition committees indices = .ok () ↔
      indices.toList.Nodup ∧ (committees.flatMap Array.toList).Perm indices.toList) ∧
    ∀ (seed : Seed) (rounds : UInt8) (count : Nat), 1 ≤ count → indices.size ≤ 2 ^ 40 →
      indices.toList.Nodup →
      ∃ committees : List (Array ValidatorIndex), committees.length = count ∧
        (∀ index (hindex : index < committees.length),
          (compute indices seed index count rounds).value = .ok committees[index]) ∧
        (∀ cache : ShuffleCache,
          (∀ held, cache.store.get? seed = some held →
            Shuffle.shuffled indices seed rounds = .ok held) →
          (computeAll indices seed count rounds cache).value.1 = .ok committees) ∧
        checkPartition committees indices = .ok () := by
  refine ⟨fun committees => checkPartition_eq_ok_iff, ?_⟩
  intro seed rounds count hcount hfits hnodup
  rw [← maxListSize_eq_two_pow] at hfits
  refine ⟨slices (Shuffle.walkRounds seed indices rounds) count, length_slices _ _, ?_, ?_, ?_⟩
  · exact fun index hindex => value_compute_eq_slices seed rounds hfits hindex
  · exact fun cache hheld => value_computeAll hfits hheld
  · rw [checkPartition_eq_ok_iff, flatMap_toList_slices _ hcount]
    exact ⟨hnodup, Shuffle.walkRounds_perm seed indices rounds⟩

/-- Three validators in five committees over a cache with room for one shuffle, an arrangement that
no shuffle made, and a list that names somebody twice. -/
theorem checkPartition_accepts_five :
    let indices : Array ValidatorIndex := #[7, 8, 9]
    1 ≤ 5 ∧ indices.size ≤ 2 ^ 40 ∧ indices.toList.Nodup ∧
      (∃ committees, committees.length = 5 ∧
        (computeAll indices zeroHash 5 1 (.empty 1)).value.1 = .ok committees ∧
        checkPartition committees indices = .ok ()) ∧
      checkPartition [#[9, 7], #[], #[8]] indices = .ok () ∧
      checkPartition [#[7, 8], #[7]] #[7, 7, 8] ≠ .ok () := by
  intro indices
  rcases checkPartition_accepts indices with ⟨hpartition, haccept⟩
  have hnodup : indices.toList.Nodup := by decide
  have hempty : ∀ held, (ShuffleCache.empty 1).store.get? zeroHash = some held →
      Shuffle.shuffled indices zeroHash 1 = .ok held := by
    intro held hheld
    simp [ShuffleCache.empty] at hheld
  rcases haccept zeroHash 1 5 (by decide) (by decide) hnodup with
    ⟨committees, hlength, _, hcached, hcheck⟩
  refine ⟨by decide, by decide, hnodup, ⟨committees, hlength, hcached _ hempty, hcheck⟩, ?_, ?_⟩
  · exact (hpartition _).2 ⟨hnodup, by decide⟩
  · intro hcover
    exact absurd (((checkPartition_accepts #[7, 7, 8]).1 _).1 hcover).1 (by decide)

end Committee

end BeaconDuties
