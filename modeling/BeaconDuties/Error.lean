import BeaconDuties.Primitives
import BeaconDuties.Milestone

/-!
# Error — why an operation was refused

Each error records its cause; its wording is one function of the cause.

* `ConfigError` — what is wrong with a network configuration;
* `ArgumentFault` — what is wrong with an argument;
* `DutyError` — every refusal of a duty operation;
* `ConfigError.message`, `ArgumentFault.reason`, `DutyError.message` — the wording.
-/

namespace BeaconDuties

/-! ## Configurations -/

/-- The configuration values that are checked on their own. -/
inductive Setting where
  | slotsPerEpoch
  | secondsPerSlot
  | shuffleRoundCount
  | maxEffectiveBalance
  | maxEffectiveBalanceElectra
  | attestationSubnetCount
  | subnetsPerNode
  | attestationSubnetPrefixBits
  | epochsPerSubnetSubscription
  deriving DecidableEq, Repr

def Setting.name : Setting → String
  | slotsPerEpoch => "slots_per_epoch"
  | secondsPerSlot => "seconds_per_slot"
  | shuffleRoundCount => "shuffle_round_count"
  | maxEffectiveBalance => "max_effective_balance"
  | maxEffectiveBalanceElectra => "max_effective_balance_electra"
  | attestationSubnetCount => "attestation_subnet_count"
  | subnetsPerNode => "subnets_per_node"
  | attestationSubnetPrefixBits => "attestation_subnet_prefix_bits"
  | epochsPerSubnetSubscription => "epochs_per_subnet_subscription"

inductive ConfigError where
  | zero (setting : Setting)
  /-- The later effective balance ceiling is below the earlier one. -/
  | ceilingLowered
  | tooManySubnetsPerNode (perNode count : UInt64)
  /-- The prefix width is not between 1 and 32 bits. -/
  | prefixBitsOutOfRange (bits : UInt8)
  | forkOrder (earlier later : Milestone)
  | unreadable
  deriving DecidableEq, Repr

namespace ConfigError

private def about (setting : Setting) (reason : String) : String :=
  "Invalid config value for " ++ setting.name ++ ": " ++ reason

def message : ConfigError → String
  | zero setting => about setting "must be greater than 0"
  | ceilingLowered =>
    about .maxEffectiveBalanceElectra "must not be below max_effective_balance"
  | tooManySubnetsPerNode perNode count =>
    about .subnetsPerNode
      (toString perNode ++ " exceeds attestation_subnet_count " ++ toString count)
  | prefixBitsOutOfRange bits =>
    about .attestationSubnetPrefixBits (toString bits ++ " not in 1..=32")
  | forkOrder earlier later =>
    "Fork schedule out of order: " ++ later.name ++ " activates before " ++ earlier.name
  | unreadable => "Config parse error"

end ConfigError

/-! ## Arguments -/

inductive ArgumentFault where
  | listTooLong (size : Nat)
  | noCommittees
  | memberCount (members indices : Nat)
  | notListed (member : ValidatorIndex)
  | assignedTwice (member : ValidatorIndex)
  | noSlots
  | noSeconds
  /-- A boundary is asked for every zero epochs. -/
  | noEpochs
  | noSubnets
  | noSubscription
  /-- The prefix width is not between 1 and 32 bits. -/
  | prefixBits (bits : UInt8)
  /-- A fork whose rules differ is asked to run on the first forks' rules. -/
  | laterRules (milestone : Milestone)
  | sidecarCount (expected got : Nat)
  | sidecarPosition (position : Nat) (index : UInt64)
  | commitmentMismatch (index : UInt64)
  | batchLengths (blobs commitments proofs : Nat)
  /-- A reason given by a collaborator of the caller. -/
  | stated (reason : String)
  deriving DecidableEq, Repr

def ArgumentFault.reason : ArgumentFault → String
  | listTooLong size => "list size " ++ toString size ++ " exceeds " ++ toString maxListSize
  | noCommittees => "committee count must be greater than 0"
  | memberCount members indices =>
    "committees hold " ++ toString members ++ " members for " ++ toString indices ++ " indices"
  | notListed member => "validator " ++ toString member ++ " is not in the index list"
  | assignedTwice member => "validator " ++ toString member ++ " assigned twice"
  | noSlots => "slots per epoch must be greater than 0"
  | noSeconds => "seconds per slot must be greater than 0"
  | noEpochs => "n must be greater than 0"
  | noSubnets => "attestation subnet count must be greater than 0"
  | noSubscription => "epochs per subnet subscription must be greater than 0"
  | prefixBits bits =>
    "attestation subnet prefix bits must be in 1..=32, got " ++ toString bits
  | laterRules milestone => milestone.name ++ " requires dedicated helpers"
  | sidecarCount expected got =>
    "expected " ++ toString expected ++ " blob sidecars, got " ++ toString got
  | sidecarPosition position index =>
    "blob sidecar at position " ++ toString position ++ " has index " ++ toString index
  | commitmentMismatch index =>
    "blob sidecar " ++ toString index ++ " commitment does not match the block"
  | batchLengths blobs commitments proofs =>
    "batch lengths differ: " ++ toString blobs ++ " blobs, " ++ toString commitments ++
      " commitments, " ++ toString proofs ++ " proofs"
  | stated reason => reason

/-! ## Duties -/

/-- The operations on blobs, which the first forks do not have. -/
inductive BlobOperation where
  | versionedHash
  | completeness
  | againstBlock
  | proof
  | proofBatch
  deriving DecidableEq, Repr

def BlobOperation.name : BlobOperation → String
  | versionedHash => "kzg_commitment_to_versioned_hash"
  | completeness => "verify_blob_sidecar_completeness"
  | againstBlock => "validate_blob_sidecars_against_block"
  | proof => "verify_blob_kzg_proof"
  | proofBatch => "verify_blob_kzg_proof_batch"

inductive DutyError where
  | invalidArgument (fault : ArgumentFault)
  | indexOutOfRange (index count : Nat)
  | emptyCandidates
  /-- A candidate's balance is unknown. -/
  | unknownValidator (validator : ValidatorIndex)
  /-- A committee's slice `[start, stop)` does not lie in a list of `count` entries. -/
  | committeeOutOfBounds (start stop count : Nat)
  | invalidConfig (cause : ConfigError)
  /-- The operation does not exist yet at the fork in force. -/
  | unsupportedForFork (operation : BlobOperation) (milestone required : Milestone)
  /-- None of the `2 ^ 64` draws that can be numbered was acceptable. -/
  | drawsExhausted
  deriving DecidableEq, Repr

namespace DutyError

def message : DutyError → String
  | invalidArgument fault => "Invalid argument: " ++ fault.reason
  | indexOutOfRange index count =>
    "Index " ++ toString index ++ " out of range for " ++ toString count ++ " entries"
  | emptyCandidates => "Candidate list is empty"
  | unknownValidator validator => "Unknown validator: " ++ toString validator
  | committeeOutOfBounds start stop count =>
    "Committee slice [" ++ toString start ++ ", " ++ toString stop ++ ") exceeds " ++
      toString count ++ " indices"
  | invalidConfig cause => "Invalid config: " ++ cause.message
  | unsupportedForFork operation milestone required =>
    operation.name ++ " is not supported at " ++ milestone.name ++ " (requires " ++
      required.name ++ ")"
  | drawsExhausted => "No acceptable draw"

/-- Whether other arguments could have avoided the refusal; only a missing operation cannot be
helped by its caller. -/
def isInvalidArgument : DutyError → Bool
  | unsupportedForFork .. => false
  | _ => true

end DutyError

end BeaconDuties
