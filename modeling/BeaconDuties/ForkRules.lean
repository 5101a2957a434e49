import BeaconDuties.Committee
import BeaconDuties.ForkRules.Sets
import BeaconDuties.SigningDomain
import BeaconDuties.Subnet

/-!
# ForkRules — the duties as one fork prescribes them

Most duties only need the constants of the network, and every set of rules has them in common. Where
a set has an operation of its own, that one is asked: the rules of electra for proposers, and those
of deneb, which the rules of electra are built over, for requests and blobs.

* `ForkRules` — the rules of a fork, in the set that the fork calls for;
* `ForkRules.ofMilestone`, `ForkRules.ofEarlyMilestone`, `ForkRules.ofAnyMilestone` — how rules are
  made, with the refusal of the first forks to stand in for later ones;
* `ForkRules.lottery`, `ForkRules.maxRequestBlocks`, and the blob operations — what differs;
* the other operations — what is the same at every fork;
* `ForkRegistry` — the rules of every fork of a valid network, by fork, epoch or slot.
-/

namespace BeaconDuties

/-- The rules of a fork, in one of the sets, which takes no fork that it is not meant for. -/
inductive ForkRules where
  | base (rules : BaseRules) (early : rules.milestone.atLeast .deneb = false)
  | deneb (rules : DenebRules) (first : rules.milestone = .deneb)
  | electra (rules : ElectraRules)

namespace ForkRules

/-! ## How rules are made -/

/-- The rules of a fork by a clock, in the set that the fork calls for. -/
def ofClock (milestone : Milestone) (config : Config) (clock : EpochClock) : ForkRules :=
  match hfork : milestone with
  | .phase0 | .altair | .bellatrix | .capella =>
    base ⟨milestone, config, clock⟩ (by rw [hfork]; rfl)
  | .deneb => deneb (.ofClock .deneb rfl config clock) rfl
  | .electra => electra (.ofClock config clock)

/-- The rules of a fork, if the network has a clock. -/
def ofMilestone (milestone : Milestone) (config : Config) : Except DutyError ForkRules :=
  config.clock.map fun clock => ofClock milestone config clock

/-- The rules of a fork before deneb, if the network has a clock. -/
def ofEarlyMilestone (milestone : Milestone) (config : Config) : Except DutyError ForkRules :=
  if milestone.atLeast .deneb then .error (.invalidArgument (.laterRules milestone))
  else ofMilestone milestone config

/-- The rules of a fork, made as those of the first forks for a fork before deneb. -/
def ofAnyMilestone (milestone : Milestone) (config : Config) : Except DutyError ForkRules :=
  match milestone with
  | .phase0 | .altair | .bellatrix | .capella => ofEarlyMilestone milestone config
  | .deneb => ofMilestone .deneb config
  | .electra => ofMilestone .electra config

/-- The first forks only refuse to stand in for later ones. -/
theorem ofAnyMilestone_eq (milestone : Milestone) (config : Config) :
    ofAnyMilestone milestone config = ofMilestone milestone config := by
  cases milestone <;> rfl

/-! ## What rules are about -/

def milestone : ForkRules → Milestone
  | base rules _ => rules.milestone
  | deneb rules _ => rules.milestone
  | electra rules => rules.milestone

def config : ForkRules → Config
  | base rules _ => rules.config
  | deneb rules _ => rules.config
  | electra rules => rules.config

def clock : ForkRules → EpochClock
  | base rules _ => rules.clock
  | deneb rules _ => rules.clock
  | electra rules => rules.clock

/-- The rules that a fork with blobs goes by.  Those of electra leave to the ones of deneb that they
are built over whatever they do not change. -/
def deneb? : ForkRules → Option DenebRules
  | base _ _ => none
  | deneb rules _ => some rules
  | electra rules => some rules.deneb

variable (rules : ForkRules)

/-! ## Shuffles and proposers -/

def shuffledIndex (index count : Nat) (seed : Seed) : Except DutyError Nat :=
  Shuffle.shuffledIndex index count seed rules.config.shuffleRoundCount

def shuffled {α : Type} (items : Array α) (seed : Seed) : Reported (Except DutyError (Array α)) :=
  Shuffle.shuffledReported items seed rules.config.shuffleRoundCount

def committee (indices : Array ValidatorIndex) (seed : Seed) (index count : Nat) :
    Reported (Except DutyError (Array ValidatorIndex)) :=
  Committee.compute indices seed index count rules.config.shuffleRoundCount

def committeeCached (indices : Array ValidatorIndex) (seed : Seed) (index count : Nat)
    (cache : ShuffleCache) : Reported (Except DutyError (Array ValidatorIndex) × ShuffleCache) :=
  Committee.computeCached indices seed index count rules.config.shuffleRoundCount cache

/-- How proposers are drawn: with one byte against the first ceiling, but for electra. -/
def lottery (candidates : Array ValidatorIndex) (seed : Seed) (balances : BalanceLookup) :
    ProposerLottery :=
  match rules with
  | electra rules => rules.lottery candidates seed balances
  | _ =>
    { candidates, seed, balances
      ceiling := rules.config.maxEffectiveBalance
      rounds := rules.config.shuffleRoundCount
      width := .byte }

def proposer (candidates : Array ValidatorIndex) (seed : Seed) (balances : BalanceLookup) :
    Reported (Except DutyError ValidatorIndex) :=
  (rules.lottery candidates seed balances).proposerReported

/-! ## Domains -/

/-- The domain of a kind of message at the network's genesis version. -/
def domainAtGenesisVersion (kind : DomainType) (genesisRoot : Root) : Domain :=
  signingDomain kind rules.config.genesisForkVersion genesisRoot

/-- The domain of a kind of message before there is a genesis root. -/
def genesisDomain (kind : DomainType) : Domain :=
  rules.domainAtGenesisVersion kind zeroHash

/-! ## Networking -/

def subnets (node : NodeId) (epoch : Epoch) : Reported (Except DutyError (List SubnetId)) :=
  subscribedSubnetsReported node epoch rules.config.networking rules.config.shuffleRoundCount

/-- The slot in which a node next moves to other subnets. -/
def unsubscriptionSlot (node : NodeId) (slot : Slot) : Except DutyError Slot :=
  BeaconDuties.unsubscriptionSlot node slot rules.config.networking rules.clock

def maxRequestBlocks : UInt64 :=
  match rules.deneb? with
  | some rules => rules.maxRequestBlocks
  | none => rules.config.networking.maxRequestBlocks

/-! ## Blobs -/

/-- Declines an operation that comes with deneb. -/
def decline {α : Type} (operation : BlobOperation) : Reported (Except DutyError α) :=
  ⟨.error (.unsupportedForFork operation rules.milestone .deneb),
    [.operationDeclined operation rules.milestone .deneb]⟩

/-- The outcome of an operation that comes with deneb. -/
def fromDeneb {α : Type} (operation : BlobOperation)
    (carryOut : DenebRules → Except DutyError α) : Reported (Except DutyError α) :=
  match rules.deneb? with
  | some rules => pure (carryOut rules)
  | none => rules.decline operation

/-- An operation that comes with deneb and asks about proofs. -/
def fromDenebAsking {α : Type} (operation : BlobOperation) (oracle : KzgOracle)
    (ask : DenebRules → KzgOracle → Reported (Except DutyError α × KzgOracle)) :
    Reported (Except DutyError α × KzgOracle) :=
  match rules.deneb? with
  | some rules => ask rules oracle
  | none => (·, oracle) <$> rules.decline operation

def versionedHash (commitment : KzgCommitment) : Reported (Except DutyError VersionedHash) :=
  rules.fromDeneb .versionedHash (·.versionedHash commitment)

def checkComplete (sidecars : List BlobSidecar) (commitments : List KzgCommitment) :
    Reported (Except DutyError Unit) :=
  rules.fromDeneb .completeness (·.checkComplete sidecars commitments)

def checkListed (sidecars : List BlobSidecar) (commitments : List KzgCommitment) :
    Reported (Except DutyError Unit) :=
  rules.fromDeneb .againstBlock (·.checkListed sidecars commitments)

def verify (oracle : KzgOracle) (sidecar : BlobSidecar) :
    Reported (Except DutyError Bool × KzgOracle) :=
  rules.fromDenebAsking .proof oracle (·.verify · sidecar)

def verifyBatch (oracle : KzgOracle) (sidecars : List BlobSidecar) :
    Reported (Except DutyError Bool × KzgOracle) :=
  rules.fromDenebAsking .proofBatch oracle (·.verifyBatch · sidecars)

end ForkRules

/-! ## All forks of a network -/

/-- The rules of every fork, in the order of `Milestone.all`, if each of them can be had. -/
def ForkRules.ofEveryMilestone (config : Config) : Except DutyError (List ForkRules) :=
  Milestone.all.mapM fun milestone => ofAnyMilestone milestone config

theorem ForkRules.ofEveryMilestone_eq (config : Config) : ofEveryMilestone config =
    config.clock.map fun clock =>
      Milestone.all.map fun milestone => ofClock milestone config clock := by
  simp only [ofEveryMilestone, ofAnyMilestone_eq, ofMilestone]
  cases config.clock with
  | error cause => rfl
  | ok clock => exact List.mapM_pure

/-- A network with the rules of all its forks, each in the place that the fork has in the order. -/
structure ForkRegistry where
  config : Config
  table : List ForkRules
  built : ForkRules.ofEveryMilestone config = .ok table

namespace ForkRegistry

/-- The rules of a network, with no look at its faults. -/
def build (config : Config) : Except DutyError ForkRegistry :=
  match hbuilt : ForkRules.ofEveryMilestone config with
  | .error cause => .error cause
  | .ok table => .ok ⟨config, table, hbuilt⟩

def ofConfig (config : Config) : Reported (Except DutyError ForkRegistry) := do
  match ← config.validateReported with
  | .error cause => pure (.error (.invalidConfig cause))
  | .ok () =>
    Reported.onSuccess (build config) fun registry =>
      .registryReady config.name registry.table.length

variable (registry : ForkRegistry)

theorem exists_table_eq : ∃ clock, registry.config.clock = .ok clock ∧ registry.table =
    Milestone.all.map fun milestone => ForkRules.ofClock milestone registry.config clock := by
  have hbuilt := registry.built
  rw [ForkRules.ofEveryMilestone_eq] at hbuilt
  cases hclock : registry.config.clock with
  | error cause =>
    rw [hclock] at hbuilt
    cases hbuilt
  | ok clock =>
    rw [hclock] at hbuilt
    exact ⟨clock, rfl, (Except.ok.inj hbuilt).symm⟩

theorem ordinal_lt (milestone : Milestone) : milestone.ordinal < registry.table.length := by
  rcases registry.exists_table_eq with ⟨clock, _, htable⟩
  rw [htable, List.length_map]
  exact (List.getElem?_eq_some_iff.1 milestone.getElem?_all_ordinal).1

def atMilestone (milestone : Milestone) : ForkRules :=
  registry.table.get ⟨milestone.ordinal, registry.ordinal_lt milestone⟩

/-- The clock, for which the first set of the table stands since all sets have the same one. -/
def clock : EpochClock :=
  (registry.atMilestone .phase0).clock

def atEpoch (epoch : Epoch) : ForkRules :=
  registry.atMilestone (registry.config.milestoneAt epoch)

def atSlot (slot : Slot) : ForkRules :=
  registry.atEpoch (registry.clock.epochAt slot)

end ForkRegistry

end BeaconDuties
