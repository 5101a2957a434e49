import BeaconDuties.Config.ForkSchedule
import BeaconDuties.Config.Networking
import BeaconDuties.EpochClock
import BeaconDuties.Event

/-!
# Config — the description of a network

Everything that differs between networks: its name and genesis version, the pace of its clock, the
number of shuffle rounds, the effective balance ceilings, the fork schedule and the networking
constants.

* `Config.mainnet`, `Config.minimal` — the two presets;
* `Config.validate` — the first fault of a configuration, if it has one;
* `Config.validateReported` — the same, with a warning on a fault;
* `Config.clock` — the clock of a configuration.
-/

namespace BeaconDuties

structure Config where
  name : String
  genesisForkVersion : Version
  slotsPerEpoch : UInt64
  secondsPerSlot : UInt64
  shuffleRoundCount : UInt8
  maxEffectiveBalance : Gwei
  maxEffectiveBalanceElectra : Gwei
  maxSeedLookahead : Epoch
  forkSchedule : ForkSchedule
  networking : Networking
  deriving DecidableEq, Repr

namespace Config

/-! ## Presets -/

def mainnet : Config where
  name := "mainnet"
  genesisForkVersion := .ofFour 0 0 0 0
  slotsPerEpoch := 32
  secondsPerSlot := 12
  shuffleRoundCount := 90
  maxEffectiveBalance := 32000000000
  maxEffectiveBalanceElectra := 2048000000000
  maxSeedLookahead := 4
  forkSchedule := ⟨74240, 144896, 194048, 269568, 364032⟩
  networking := .standard

def minimal : Config where
  name := "minimal"
  genesisForkVersion := .ofFour 0 0 0 1
  slotsPerEpoch := 8
  secondsPerSlot := 6
  shuffleRoundCount := 10
  maxEffectiveBalance := 32000000000
  maxEffectiveBalanceElectra := 2048000000000
  maxSeedLookahead := 4
  forkSchedule := .unscheduled
  networking := .standard

/-! ## Validation -/

/-- The first fault of a configuration: a zero where something is counted or divided, a lowered
ceiling, forks out of order, or faulty networking constants. -/
def validate (config : Config) : Except ConfigError Unit :=
  if config.slotsPerEpoch = 0 then .error (.zero .slotsPerEpoch)
  else if config.secondsPerSlot = 0 then .error (.zero .secondsPerSlot)
  else if config.shuffleRoundCount = 0 then .error (.zero .shuffleRoundCount)
  else if config.maxEffectiveBalance = 0 then .error (.zero .maxEffectiveBalance)
  else if config.maxEffectiveBalanceElectra < config.maxEffectiveBalance then
    .error .ceilingLowered
  else
    -- The parts come after what the configuration itself says.
    match config.forkSchedule.validate with
    | .error cause => .error cause
    | .ok () => config.networking.validate

/-- Validation with a warning when it fails. -/
def validateReported (config : Config) : Reported (Except ConfigError Unit) :=
  match config.validate with
  | .error cause => ⟨.error cause, [.configRejected config.name cause]⟩
  | .ok () => pure (.ok ())

def clock (config : Config) : Except DutyError EpochClock :=
  EpochClock.ofParts config.slotsPerEpoch config.secondsPerSlot config.maxSeedLookahead

def milestoneAt (config : Config) (epoch : Epoch) : Milestone :=
  config.forkSchedule.milestoneAt epoch

end Config

end BeaconDuties
