import BeaconDuties.Proofs.Blob.Matching
import BeaconDuties.Proofs.Config.Validation
import BeaconDuties.Proofs.EpochClock.Tiling
import BeaconDuties.Proofs.ForkRules.Table

/-!
# Dispatch — the rules change in the slots where forks activate

The fork in force is searched for by epoch, latest fork first, and the rules of a slot are those of
its epoch.  In a valid schedule no fork activates before an earlier one, so the search finds a fork
at or after a given one as soon as that one has activated; rounding slots down to epochs moves no
fork, since forks activate with the first slot of an epoch.  What the rules prescribe then depends
on two questions alone: whether deneb has activated, and whether electra has.

* `ForkSchedule.forkEpoch_le_of_atLeast`, `ForkSchedule.milestoneAt_atLeast_iff` — valid schedules;
* `ForkRules.Switches` — an operation that is declined until it is offered;
* `ForkRules.AgreeOnCommonDuties` — two forks that differ in nothing but blobs and proposers;
* `ForkRegistry.atSlot_switches` — the rules of a slot.
-/

namespace BeaconDuties

/-! ## Schedules -/

namespace Milestone

theorem eq_of_ordinal_eq {fork other : Milestone} (hsame : fork.ordinal = other.ordinal) :
    fork = other := by
  have hplace := fork.getElem?_all_ordinal
  rw [hsame, other.getElem?_all_ordinal] at hplace
  exact (Option.some.inj hplace).symm

theorem pairwise_ordinal_reverse :
    all.reverse.Pairwise fun later earlier => earlier.ordinal ≤ later.ordinal := by
  decide

end Milestone

namespace ForkSchedule

variable {schedule : ForkSchedule} {epoch : Epoch} {fork later : Milestone}

/-- A valid schedule has its activation epochs in order, and not only those of neighbours. -/
theorem pairwise_forkEpoch (hvalid : schedule.validate = .ok ()) :
    Milestone.all.Pairwise fun earlier later =>
      schedule.forkEpoch earlier ≤ schedule.forkEpoch later := by
  have hneighbours : ∀ pair ∈ Milestone.all.zip Milestone.all.tail,
      schedule.forkEpoch pair.1 ≤ schedule.forkEpoch pair.2 := by
    rw [validate] at hvalid
    split at hvalid
    · cases hvalid
    · rename_i hnone
      intro pair hpair
      simpa using List.find?_eq_none.1 hnone pair hpair
  have hchain : Milestone.all.IsChain fun earlier later =>
      schedule.forkEpoch earlier ≤ schedule.forkEpoch later := by
    simpa [Milestone.all] using hneighbours
  exact hchain.pairwise

theorem forkEpoch_le_of_atLeast (hvalid : schedule.validate = .ok ())
    (hlater : later.atLeast fork = true) :
    schedule.forkEpoch fork ≤ schedule.forkEpoch later := by
  have hordinal : fork.ordinal ≤ later.ordinal := by
    simpa [Milestone.atLeast] using hlater
  rcases List.getElem?_eq_some_iff.1 fork.getElem?_all_ordinal with ⟨hfork, hforkAt⟩
  rcases List.getElem?_eq_some_iff.1 later.getElem?_all_ordinal with ⟨hlaterIn, hlaterAt⟩
  rcases Nat.lt_or_eq_of_le hordinal with hlt | heq
  · have hpair := List.pairwise_iff_getElem.1 (pairwise_forkEpoch hvalid) _ _ hfork hlaterIn hlt
    rwa [hforkAt, hlaterAt] at hpair
  · rw [Milestone.eq_of_ordinal_eq heq]
    exact UInt64.le_refl _

/-- The search answers with a fork that has activated, and with none earlier than it has to. -/
theorem milestoneAt_spec (schedule : ForkSchedule) (epoch : Epoch) :
    schedule.forkEpoch (schedule.milestoneAt epoch) ≤ epoch ∧
      ∀ fork, schedule.forkEpoch fork ≤ epoch →
        (schedule.milestoneAt epoch).atLeast fork = true := by
  rw [milestoneAt]
  cases hfind : Milestone.all.reverse.find? fun fork => schedule.forkEpoch fork ≤ epoch with
  | none =>
    have hgenesis := List.find?_eq_none.1 hfind .phase0 (by decide)
    simp [forkEpoch] at hgenesis
  | some found =>
    rcases List.find?_eq_some_iff_append.1 hfind with ⟨hactive, passed, rest, hsplit, hpassed⟩
    refine ⟨by simpa using hactive, ?_⟩
    intro fork hcome
    have hmem : fork ∈ passed ++ found :: rest := by
      rw [← hsplit]
      exact List.mem_reverse.2 fork.mem_all
    have horder := Milestone.pairwise_ordinal_reverse
    rw [hsplit] at horder
    have hordinal : fork.ordinal ≤ found.ordinal := by
      rcases List.mem_append.1 hmem with hbefore | hfrom
      · -- A fork that was passed over has not activated yet.
        have hnot := hpassed fork hbefore
        simp [hcome] at hnot
      · rcases List.mem_cons.1 hfrom with rfl | hafter
        · exact Nat.le_refl _
        · exact (List.pairwise_cons.1 (List.pairwise_append.1 horder).2.1).1 fork hafter
    simpa [Milestone.atLeast] using hordinal

theorem milestoneAt_atLeast_iff (hvalid : schedule.validate = .ok ()) :
    (schedule.milestoneAt epoch).atLeast fork = true ↔ schedule.forkEpoch fork ≤ epoch := by
  rcases milestoneAt_spec schedule epoch with ⟨hactive, hlatest⟩
  constructor
  · intro hatLeast
    exact UInt64.le_trans (forkEpoch_le_of_atLeast hvalid hatLeast) hactive
  · exact hlatest fork

end ForkSchedule

/-! ## What does not depend on forks -/

namespace BlobSidecar

/-- Plain checks never ask which fork is in force. -/
theorem checkFrom_ne_unsupported (position : Nat) (sidecars : List BlobSidecar)
    (commitments : List KzgCommitment) (operation : BlobOperation)
    (milestone required : Milestone) :
    checkFrom position sidecars commitments ≠
      .error (.unsupportedForFork operation milestone required) := by
  rw [Ne, checkFrom_eq_error_iff]
  rintro ⟨place, sidecar, commitment, _, _, hmisfit, _⟩
  cases hmisfit

theorem checkComplete_ne_unsupported (sidecars : List BlobSidecar)
    (commitments : List KzgCommitment) (operation : BlobOperation)
    (milestone required : Milestone) :
    checkComplete sidecars commitments ≠
      .error (.unsupportedForFork operation milestone required) := by
  rw [checkComplete]
  split_ifs
  · simp
  · exact checkFrom_ne_unsupported 0 sidecars commitments operation milestone required

theorem checkListed_ne_unsupported (sidecars : List BlobSidecar)
    (commitments : List KzgCommitment) (operation : BlobOperation)
    (milestone required : Milestone) :
    checkListed commitments sidecars ≠
      .error (.unsupportedForFork operation milestone required) := by
  fun_induction checkListed commitments sidecars with
  | case1 => simp
  | case2 => simp
  | case3 => simp
  | case4 _ _ _ _ _ ih => exact ih

/-- Who verifies asks, and the oracle remembers the question. -/
theorem asked_verifyBatch (oracle : KzgOracle) (sidecars : List BlobSidecar) :
    (verifyBatch oracle sidecars).value.2.asked = oracle.asked ++ [.ofSidecars sidecars] :=
  rfl

theorem verifyBatch_ne_unasked (oracle : KzgOracle) (sidecars : List BlobSidecar)
    (answer : Except DutyError Bool) : (verifyBatch oracle sidecars).value ≠ (answer, oracle) := by
  intro hsame
  have hasked := asked_verifyBatch oracle sidecars
  rw [hsame] at hasked
  simp at hasked

end BlobSidecar

/-! ## Rules -/

namespace ForkRules

/-- The refusal of an operation that comes with deneb, in the name of the fork of the rules. -/
def refusal (rules : ForkRules) (operation : BlobOperation) : DutyError :=
  .unsupportedForFork operation rules.milestone .deneb

/-- An operation that is declined just until it is offered, and then answers as the plain one. -/
def Switches {α : Type} (offered : Prop) (declined : α) (answer plain : Reported α) : Prop :=
  (answer.value = declined ↔ ¬ offered) ∧ (offered → answer = plain)

/-- Rules that differ in nothing but blobs, proposers, and the limit on requests.  Epochs and times
are those of the clock; domains of a given version, and roots, take no rules at all. -/
structure AgreeOnCommonDuties (rules other : ForkRules) : Prop where
  shuffledIndex : rules.shuffledIndex = other.shuffledIndex
  shuffled : ∀ {α : Type} (items : Array α), rules.shuffled items = other.shuffled items
  committee : rules.committee = other.committee
  committeeCached : rules.committeeCached = other.committeeCached
  domainAtGenesisVersion : rules.domainAtGenesisVersion = other.domainAtGenesisVersion
  genesisDomain : rules.genesisDomain = other.genesisDomain
  subnets : rules.subnets = other.subnets
  unsubscriptionSlot : rules.unsubscriptionSlot = other.unsubscriptionSlot
  clock : rules.clock = other.clock
  config : rules.config = other.config

variable {rules : ForkRules} {offered : Prop}

theorem switches_ite {α : Type} {available : Prop} [Decidable available]
    (hoffered : available ↔ offered) {declined : α} {refused plain : Reported α}
    (hrefused : refused.value = declined) (hplain : plain.value ≠ declined) :
    Switches offered declined (if available then plain else refused) plain := by
  by_cases hcome : offered
  · rw [if_pos (hoffered.2 hcome)]
    exact ⟨iff_of_false hplain (not_not_intro hcome), fun _ => rfl⟩
  · rw [if_neg (mt hoffered.1 hcome)]
    exact ⟨iff_of_true hrefused hcome, fun hoffers => absurd hoffers hcome⟩

theorem fromDeneb_switches {α : Type} (hoffered : rules.milestone.atLeast .deneb = true ↔ offered)
    {operation : BlobOperation} {carryOut : DenebRules → Except DutyError α}
    {outcome : Except DutyError α} (hcarry : ∀ inner, carryOut inner = outcome)
    (hplain : outcome ≠ .error (rules.refusal operation)) :
    Switches offered (.error (rules.refusal operation)) (rules.fromDeneb operation carryOut)
      (pure outcome) := by
  rw [fromDeneb_eq_ite hcarry]
  exact switches_ite hoffered rfl hplain

theorem fromDenebAsking_switches {α : Type}
    (hoffered : rules.milestone.atLeast .deneb = true ↔ offered) {operation : BlobOperation}
    {oracle : KzgOracle} {ask : DenebRules → KzgOracle → Reported (Except DutyError α × KzgOracle)}
    {answer : Reported (Except DutyError α × KzgOracle)}
    (hask : ∀ inner, ask inner oracle = answer)
    (hplain : ∀ outcome, answer.value ≠ (outcome, oracle)) :
    Switches offered (.error (rules.refusal operation), oracle)
      (rules.fromDenebAsking operation oracle ask) answer := by
  rw [fromDenebAsking_eq_ite hask]
  exact switches_ite hoffered rfl (hplain _)

section Blobs

variable (hoffered : rules.milestone.atLeast .deneb = true ↔ offered)

include hoffered

theorem versionedHash_switches (commitment : KzgCommitment) :
    Switches offered (.error (rules.refusal .versionedHash)) (rules.versionedHash commitment)
      (pure (.ok (BeaconDuties.versionedHash commitment))) :=
  fromDeneb_switches hoffered (fun _ => rfl) (by simp)

theorem checkComplete_switches (sidecars : List BlobSidecar) (commitments : List KzgCommitment) :
    Switches offered (.error (rules.refusal .completeness))
      (rules.checkComplete sidecars commitments)
      (pure (BlobSidecar.checkComplete sidecars commitments)) :=
  fromDeneb_switches hoffered (fun _ => rfl)
    (BlobSidecar.checkComplete_ne_unsupported sidecars commitments _ _ _)

theorem checkListed_switches (sidecars : List BlobSidecar) (commitments : List KzgCommitment) :
    Switches offered (.error (rules.refusal .againstBlock))
      (rules.checkListed sidecars commitments)
      (pure (BlobSidecar.checkListed commitments sidecars)) :=
  fromDeneb_switches hoffered (fun _ => rfl)
    (BlobSidecar.checkListed_ne_unsupported sidecars commitments _ _ _)

theorem verify_switches (oracle : KzgOracle) (sidecar : BlobSidecar) :
    Switches offered (.error (rules.refusal .proof), oracle) (rules.verify oracle sidecar)
      (BlobSidecar.verify oracle sidecar) :=
  fromDenebAsking_switches hoffered (fun _ => rfl)
    (BlobSidecar.verifyBatch_ne_unasked oracle [sidecar])

theorem verifyBatch_switches (oracle : KzgOracle) (sidecars : List BlobSidecar) :
    Switches offered (.error (rules.refusal .proofBatch), oracle)
      (rules.verifyBatch oracle sidecars) (BlobSidecar.verifyBatch oracle sidecars) :=
  fromDenebAsking_switches hoffered (fun _ => rfl)
    (BlobSidecar.verifyBatch_ne_unasked oracle sidecars)

end Blobs

/-- What does not change with the forks depends on the network and its clock alone. -/
theorem agreeOnCommonDuties_of_eq {other : ForkRules} (hconfig : rules.config = other.config)
    (hclock : rules.clock = other.clock) : AgreeOnCommonDuties rules other where
  shuffledIndex := by
    funext index count seed
    rw [shuffledIndex, shuffledIndex, hconfig]
  shuffled items := by
    funext seed
    rw [shuffled, shuffled, hconfig]
  committee := by
    funext indices seed index count
    rw [committee, committee, hconfig]
  committeeCached := by
    funext indices seed index count cache
    rw [committeeCached, committeeCached, hconfig]
  domainAtGenesisVersion := by
    funext kind genesisRoot
    rw [domainAtGenesisVersion, domainAtGenesisVersion, hconfig]
  genesisDomain := by
    funext kind
    rw [genesisDomain, genesisDomain, domainAtGenesisVersion, domainAtGenesisVersion, hconfig]
  subnets := by
    funext node epoch
    rw [subnets, subnets, hconfig]
  unsubscriptionSlot := by
    funext node slot
    rw [unsubscriptionSlot, unsubscriptionSlot, hconfig, hclock]
  clock := hclock
  config := hconfig

end ForkRules

/-! ## The rules of a slot -/

/-- Whether the first slot of a fork, found without any limit on slots, is not after a slot. -/
def Config.HasActivated (config : Config) (fork : Milestone) (slot : Slot) : Prop :=
  (config.forkSchedule.forkEpoch fork).toNat * config.slotsPerEpoch.toNat ≤ slot.toNat

instance (config : Config) (fork : Milestone) (slot : Slot) :
    Decidable (config.HasActivated fork slot) :=
  inferInstanceAs (Decidable (_ ≤ _))

namespace ForkRegistry

variable {config : Config}

theorem value_ofConfig (hvalid : config.validate = .ok ()) :
    (ofConfig config).value = build config := by
  simp [ofConfig, Config.validateReported, hvalid, Reported.onSuccess]

/-- A valid network has its rules, under a clock with its own number of slots per epoch. -/
theorem ofConfig_eq_ok (hvalid : config.validate = .ok ()) :
    ∃ registry, (ofConfig config).value = .ok registry ∧ registry.config = config ∧
      registry.clock.slotsPerEpoch = config.slotsPerEpoch := by
  rcases Config.clock_eq_ok hvalid with ⟨clock, hclock, hslots, _⟩
  rcases build_eq_ok hclock with ⟨registry, hbuild, hconfig, rfl⟩
  exact ⟨registry, by rw [value_ofConfig hvalid, hbuild], hconfig, hslots⟩

theorem milestone_atSlot (registry : ForkRegistry) (slot : Slot) :
    (registry.atSlot slot).milestone =
      registry.config.milestoneAt (registry.clock.epochAt slot) :=
  registry.milestone_atMilestone _

theorem atLeast_atSlot_iff {registry : ForkRegistry} {slot : Slot} {fork : Milestone}
    (hvalid : config.validate = .ok ()) (hconfig : registry.config = config)
    (hslots : registry.clock.slotsPerEpoch = config.slotsPerEpoch) :
    (registry.atSlot slot).milestone.atLeast fork = true ↔ config.HasActivated fork slot := by
  have hschedule := (Config.validate_eq_ok_iff.1 hvalid).2.1
  rw [milestone_atSlot, hconfig, Config.milestoneAt,
    ForkSchedule.milestoneAt_atLeast_iff hschedule, EpochClock.le_epochAt_iff, hslots,
    Config.HasActivated]

/-- The rules of a slot in a valid network report at least the forks that have activated by that
slot.  They decline the operations on blobs, asking nobody about proofs, just until deneb has
activated, and from then on carry them out and apply its limit on requests.  Proposers are drawn
with two bytes against the raised ceiling just from electra on.  All else is the same in every
slot. -/
theorem atSlot_switches (config : Config) (hvalid : config.validate = .ok ()) :
    ∃ registry, (ofConfig config).value = .ok registry ∧ ∀ slot,
      let rules := registry.atSlot slot
      let deneb := config.HasActivated .deneb slot
      (∀ fork, rules.milestone.atLeast fork = true ↔ config.HasActivated fork slot) ∧
      (∀ commitment, ForkRules.Switches deneb (.error (rules.refusal .versionedHash))
        (rules.versionedHash commitment) (pure (.ok (versionedHash commitment)))) ∧
      (∀ sidecars commitments, ForkRules.Switches deneb (.error (rules.refusal .completeness))
        (rules.checkComplete sidecars commitments)
        (pure (BlobSidecar.checkComplete sidecars commitments))) ∧
      (∀ sidecars commitments, ForkRules.Switches deneb (.error (rules.refusal .againstBlock))
        (rules.checkListed sidecars commitments)
        (pure (BlobSidecar.checkListed commitments sidecars))) ∧
      (∀ oracle sidecar, ForkRules.Switches deneb (.error (rules.refusal .proof), oracle)
        (rules.verify oracle sidecar) (BlobSidecar.verify oracle sidecar)) ∧
      (∀ oracle sidecars, ForkRules.Switches deneb (.error (rules.refusal .proofBatch), oracle)
        (rules.verifyBatch oracle sidecars) (BlobSidecar.verifyBatch oracle sidecars)) ∧
      rules.maxRequestBlocks = (if config.HasActivated .deneb slot
        then config.networking.maxRequestBlocksDeneb else config.networking.maxRequestBlocks) ∧
      (∀ candidates seed balances, rules.proposer candidates seed balances =
        ProposerLottery.proposerReported (if config.HasActivated .electra slot
          then ⟨candidates, seed, balances, config.maxEffectiveBalanceElectra,
            config.shuffleRoundCount, .twoBytes⟩
          else ⟨candidates, seed, balances, config.maxEffectiveBalance,
            config.shuffleRoundCount, .byte⟩)) ∧
      ∀ other, ForkRules.AgreeOnCommonDuties rules (registry.atSlot other) := by
  rcases ofConfig_eq_ok hvalid with ⟨registry, hregistry, hconfig, hslots⟩
  refine ⟨registry, hregistry, ?_⟩
  intro slot rules deneb
  have hcome : ∀ fork, rules.milestone.atLeast fork = true ↔ config.HasActivated fork slot :=
    fun fork => atLeast_atSlot_iff hvalid hconfig hslots
  have hrules : rules.config = config := (registry.config_atMilestone _).trans hconfig
  have hdeneb := hcome .deneb
  refine ⟨hcome, ForkRules.versionedHash_switches hdeneb, ForkRules.checkComplete_switches hdeneb,
    ForkRules.checkListed_switches hdeneb, ForkRules.verify_switches hdeneb,
    ForkRules.verifyBatch_switches hdeneb, ?_, ?_, ?_⟩
  · rw [ForkRules.maxRequestBlocks_eq_ite, hrules]
    exact if_congr hdeneb rfl rfl
  · intro candidates seed balances
    rw [ForkRules.proposer, ForkRules.lottery_eq_ite, hrules]
    exact congrArg _ (if_congr (hcome .electra) rfl rfl)
  · -- All rules in the table are over one network and one clock.
    intro other
    exact ForkRules.agreeOnCommonDuties_of_eq
      ((registry.config_atMilestone _).trans (registry.config_atMilestone _).symm)
      ((registry.clock_atMilestone _).trans (registry.clock_atMilestone _).symm)

/-- Two forks in epoch 5 of eight slots each, and a last one that is not scheduled. -/
theorem atSlot_switches_coinciding :
    let config : Config := { Config.minimal with forkSchedule := ⟨0, 0, 5, 5, farFutureEpoch⟩ }
    config.validate = .ok () ∧ ∃ registry, (ofConfig config).value = .ok registry ∧
      (registry.atSlot 39).milestone.atLeast .capella = false ∧
      (registry.atSlot 40).milestone.atLeast .deneb = true ∧
      (registry.atSlot 39).maxRequestBlocks = 1024 ∧
      (registry.atSlot 40).maxRequestBlocks = 128 ∧
      ∀ oracle, ((registry.atSlot 39).verifyBatch oracle []).value =
        (.error ((registry.atSlot 39).refusal .proofBatch), oracle) := by
  intro config
  have hvalid : config.validate = .ok () := rfl
  have hbefore : ¬ config.HasActivated .capella 39 := by decide
  have hbefore' : ¬ config.HasActivated .deneb 39 := by decide
  have hfrom : config.HasActivated .deneb 40 := by decide
  rcases atSlot_switches config hvalid with ⟨registry, hregistry, hswitches⟩
  rcases hswitches 39 with ⟨hforks, _, _, _, _, hbatch, hblocks, _⟩
  rcases hswitches 40 with ⟨hforks', _, _, _, _, _, hblocks', _⟩
  refine ⟨hvalid, registry, hregistry, ?_, (hforks' .deneb).2 hfrom, ?_, ?_, ?_⟩
  · exact Bool.eq_false_iff.2 (mt (hforks .capella).1 hbefore)
  · rw [hblocks, if_neg hbefore']
    rfl
  · rw [hblocks', if_pos hfrom]
    rfl
  · intro oracle
    exact (hbatch oracle []).1.2 hbefore'

end ForkRegistry

end BeaconDuties
