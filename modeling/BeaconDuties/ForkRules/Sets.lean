import BeaconDuties.Blob
import BeaconDuties.Config.Basic
import BeaconDuties.Proposer

/-!
# Sets — three sets of rules, each over the one before

Forks that agree share a set of rules. Only two things change with the forks: from deneb on there
are blobs, and a smaller limit on requests by range; from electra on proposers are drawn with values
of two bytes against a raised ceiling. A later set is built over an earlier one, answers itself what
it changes, and hands on the rest.

* `BaseRules` — a fork, a network and its clock;
* `DenebRules` — over those, the limit on requests and the operations on blobs;
* `ElectraRules` — over those, how proposers are drawn.
-/

namespace BeaconDuties

/-- What every set of rules is built on. -/
structure BaseRules where
  milestone : Milestone
  config : Config
  clock : EpochClock

/-- The rules of a fork with blobs. -/
structure DenebRules where
  base : BaseRules
  blobs : base.milestone.atLeast .deneb = true

namespace DenebRules

def ofClock (milestone : Milestone) (blobs : milestone.atLeast .deneb = true) (config : Config)
    (clock : EpochClock) : DenebRules :=
  ⟨⟨milestone, config, clock⟩, blobs⟩

variable (rules : DenebRules)

def milestone : Milestone :=
  rules.base.milestone

def config : Config :=
  rules.base.config

def clock : EpochClock :=
  rules.base.clock

def maxRequestBlocks : UInt64 :=
  rules.config.networking.maxRequestBlocksDeneb

def versionedHash (_rules : DenebRules) (commitment : KzgCommitment) :
    Except DutyError VersionedHash :=
  .ok (BeaconDuties.versionedHash commitment)

def checkComplete (_rules : DenebRules) (sidecars : List BlobSidecar)
    (commitments : List KzgCommitment) : Except DutyError Unit :=
  BlobSidecar.checkComplete sidecars commitments

def checkListed (_rules : DenebRules) (sidecars : List BlobSidecar)
    (commitments : List KzgCommitment) : Except DutyError Unit :=
  BlobSidecar.checkListed commitments sidecars

def verify (_rules : DenebRules) (oracle : KzgOracle) (sidecar : BlobSidecar) :
    Reported (Except DutyError Bool × KzgOracle) :=
  BlobSidecar.verify oracle sidecar

def verifyBatch (_rules : DenebRules) (oracle : KzgOracle) (sidecars : List BlobSidecar) :
    Reported (Except DutyError Bool × KzgOracle) :=
  BlobSidecar.verifyBatch oracle sidecars

end DenebRules

/-- The rules of electra, which are those of a fork with blobs but for proposers. -/
structure ElectraRules where
  deneb : DenebRules
  latest : deneb.milestone = .electra

namespace ElectraRules

def ofClock (config : Config) (clock : EpochClock) : ElectraRules :=
  ⟨.ofClock .electra rfl config clock, rfl⟩

variable (rules : ElectraRules)

def milestone : Milestone :=
  rules.deneb.milestone

def config : Config :=
  rules.deneb.config

def clock : EpochClock :=
  rules.deneb.clock

/-- Proposers are drawn with two bytes against the raised ceiling. -/
def lottery (candidates : Array ValidatorIndex) (seed : Seed) (balances : BalanceLookup) :
    ProposerLottery where
  candidates := candidates
  seed := seed
  balances := balances
  ceiling := rules.config.maxEffectiveBalanceElectra
  rounds := rules.config.shuffleRoundCount
  width := .twoBytes

end ElectraRules

end BeaconDuties
