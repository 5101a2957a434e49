import BeaconDuties.Config.Basic
import BeaconDuties.Document.Record
import BeaconDuties.Document.VersionText
import BeaconDuties.Json.Printer
import BeaconDuties.Json.Reader

/-!
# Network — configurations as documents

A configuration is a record that holds two further records, its fork schedule and its networking
constants. It is written with one member per line. What is read is validated before it is handed
out.

* `ForkSchedule.fields`, `Networking.fields`, `Config.fields` — the named values of a record;
* `ForkSchedule.toJson`, `Networking.toJson`, `Config.toJson` — values as documents;
* `ForkSchedule.ofJson?`, `Networking.ofJson?`, `Config.ofJson?` — values of documents;
* `Config.toText` — the text of a configuration;
* `Config.read`, `Config.readReported` — the validated configuration of a text.
-/

namespace BeaconDuties

namespace ForkSchedule

def fieldNames : List String :=
  ["altair_fork_epoch", "bellatrix_fork_epoch", "capella_fork_epoch", "deneb_fork_epoch",
    "electra_fork_epoch"]

def fields (schedule : ForkSchedule) : List (String × JsonValue) :=
  fieldNames.zip [.natural schedule.altair.toNat, .natural schedule.bellatrix.toNat,
    .natural schedule.capella.toNat, .natural schedule.deneb.toNat,
    .natural schedule.electra.toNat]

def toJson (schedule : ForkSchedule) : JsonValue :=
  .record schedule.fields

def ofJson? (value : JsonValue) : Option ForkSchedule := do
  let [altair, bellatrix, capella, deneb, electra] ← value.fields? fieldNames | none
  return ⟨← altair.uint64?, ← bellatrix.uint64?, ← capella.uint64?, ← deneb.uint64?,
    ← electra.uint64?⟩

end ForkSchedule

namespace Networking

def fieldNames : List String :=
  ["attestation_subnet_count", "subnets_per_node", "attestation_subnet_prefix_bits",
    "epochs_per_subnet_subscription", "max_request_blocks", "max_request_blocks_deneb"]

def fields (networking : Networking) : List (String × JsonValue) :=
  fieldNames.zip [.natural networking.attestationSubnetCount.toNat,
    .natural networking.subnetsPerNode.toNat,
    .natural networking.attestationSubnetPrefixBits.toNat,
    .natural networking.epochsPerSubnetSubscription.toNat,
    .natural networking.maxRequestBlocks.toNat,
    .natural networking.maxRequestBlocksDeneb.toNat]

def toJson (networking : Networking) : JsonValue :=
  .record networking.fields

def ofJson? (value : JsonValue) : Option Networking := do
  let [count, perNode, bits, period, blocks, blocksDeneb] ← value.fields? fieldNames | none
  return ⟨← count.uint64?, ← perNode.uint64?, ← bits.uint8?, ← period.uint64?, ← blocks.uint64?,
    ← blocksDeneb.uint64?⟩

end Networking

namespace Config

def fieldNames : List String :=
  ["config_name", "genesis_fork_version", "slots_per_epoch", "seconds_per_slot",
    "shuffle_round_count", "max_effective_balance", "max_effective_balance_electra",
    "max_seed_lookahead", "fork_schedule", "networking"]

/-- The fields of a configuration whose two inner records are written as the given documents. -/
def fields (config : Config) (schedule networking : JsonValue) : List (String × JsonValue) :=
  fieldNames.zip [.string config.name,
    .string (String.ofList (VersionText.render config.genesisForkVersion)),
    .natural config.slotsPerEpoch.toNat, .natural config.secondsPerSlot.toNat,
    .natural config.shuffleRoundCount.toNat, .natural config.maxEffectiveBalance.toNat,
    .natural config.maxEffectiveBalanceElectra.toNat, .natural config.maxSeedLookahead.toNat,
    schedule, networking]

def toJson (config : Config) : JsonValue :=
  .record (config.fields config.forkSchedule.toJson config.networking.toJson)

/-- The configuration of a document, valid or not. -/
def ofJson? (value : JsonValue) : Option Config := do
  let [name, version, slots, seconds, rounds, ceiling, electraCeiling, lookahead, schedule,
    networking] ← value.fields? fieldNames | none
  return {
    name := String.ofList (← name.chars?)
    genesisForkVersion := ← version.chars?.bind VersionText.parse?
    slotsPerEpoch := ← slots.uint64?
    secondsPerSlot := ← seconds.uint64?
    shuffleRoundCount := ← rounds.uint8?
    maxEffectiveBalance := ← ceiling.uint64?
    maxEffectiveBalanceElectra := ← electraCeiling.uint64?
    maxSeedLookahead := ← lookahead.uint64?
    forkSchedule := ← ForkSchedule.ofJson? schedule
    networking := ← Networking.ofJson? networking }

/-! ## Texts -/

def toText (config : Config) : String :=
  config.toJson.pretty

/-- The configuration that a text spells, valid or not. -/
def spelled? (text : String) : Option Config :=
  (JsonValue.parse? text).bind ofJson?

/-- The validated configuration of a text. -/
def read (text : String) : Except ConfigError Config :=
  match spelled? text with
  | none => .error .unreadable
  | some config => config.validate.map fun _ => config

/-- The validated configuration of a text, with a warning when validation fails. -/
def readReported (text : String) : Reported (Except ConfigError Config) :=
  match spelled? text with
  | none => pure (.error .unreadable)
  | some config => (·.map fun _ => config) <$> config.validateReported

end Config

end BeaconDuties
