import BeaconDuties.Config.Networking
import BeaconDuties.EpochClock
import BeaconDuties.Shuffle.Basic

/-!
# Subnet — which attestation subnets a node holds, and until when

A node's long-lived subnets follow from its id and the epoch alone. The leading bits of the id are
shuffled under a seed that changes once per subscription period, and the periods of a node are
shifted by its id modulo their length, so that nodes do not all move at once.

* `SubnetParams` — the constants in use, checked;
* `SubnetParams.offset`, `SubnetParams.period`, `SubnetParams.periodSeed` — a node's periods;
* `subscribedSubnet`, `subscribedSubnets` — the subnets of a node;
* `unsubscriptionSlot` — the first slot of the node's next period.
-/

namespace BeaconDuties

/-- The subnet constants in use: some subnets, periods of some epochs, a prefix of 1 to 32 bits. -/
structure SubnetParams where
  subnetCount : UInt64
  prefixBits : UInt8
  periodEpochs : UInt64
  deriving DecidableEq, Repr

namespace SubnetParams

def ofNetworking (networking : Networking) : Except DutyError SubnetParams :=
  if networking.attestationSubnetCount = 0 then .error (.invalidArgument .noSubnets)
  else if networking.epochsPerSubnetSubscription = 0 then
    .error (.invalidArgument .noSubscription)
  else if networking.attestationSubnetPrefixBits = 0 ∨
      32 < networking.attestationSubnetPrefixBits then
    .error (.invalidArgument (.prefixBits networking.attestationSubnetPrefixBits))
  else
    .ok ⟨networking.attestationSubnetCount, networking.attestationSubnetPrefixBits,
      networking.epochsPerSubnetSubscription⟩

variable (params : SubnetParams)

/-- How far the node's periods are shifted. -/
def offset (node : NodeId) : UInt64 :=
  UInt64.ofNat (node.toNat % params.periodEpochs.toNat)

def leadingBits (node : NodeId) : Nat :=
  node.toNat >>> (256 - params.prefixBits.toNat)

/-- The number of the node's period that an epoch lies in. -/
def period (node : NodeId) (epoch : Epoch) : UInt64 :=
  Saturating.add epoch (params.offset node) / params.periodEpochs

def periodSeed (period : UInt64) : Seed :=
  Sha256.hash (Bytes.littleEndian 8 period.toNat).toArray

/-- Where the shuffle of a period takes the leading bits of a node id. -/
def placement (node : NodeId) (epoch : Epoch) (rounds : UInt8) : Except DutyError Nat :=
  Shuffle.shuffledIndex (params.leadingBits node) (1 <<< params.prefixBits.toNat)
    (periodSeed (params.period node epoch)) rounds

end SubnetParams

/-! ## Subscriptions -/

/-- The subnet in the place `index` of a node during an epoch. -/
def subscribedSubnet (node : NodeId) (epoch : Epoch) (index : UInt64) (networking : Networking)
    (rounds : UInt8) : Except DutyError SubnetId :=
  match SubnetParams.ofNetworking networking with
  | .error cause => .error cause
  | .ok params => (params.placement node epoch rounds).map fun placement =>
    (UInt64.ofNat placement + index) % params.subnetCount

/-- The subnets in the places `index`, `index + 1`, … of a node, as many as asked for; the first
failure ends the list. -/
def subscribedSubnetsFrom (node : NodeId) (epoch : Epoch) (networking : Networking)
    (rounds : UInt8) : (remaining : Nat) → (index : UInt64) → Except DutyError (List SubnetId)
  | 0, _ => .ok []
  | remaining + 1, index =>
    match subscribedSubnet node epoch index networking rounds with
    | .error cause => .error cause
    | .ok subnet =>
      (subscribedSubnetsFrom node epoch networking rounds remaining (index + 1)).map (subnet :: ·)

def subscribedSubnets (node : NodeId) (epoch : Epoch) (networking : Networking) (rounds : UInt8) :
    Except DutyError (List SubnetId) :=
  subscribedSubnetsFrom node epoch networking rounds networking.subnetsPerNode.toNat 0

def subscribedSubnetsReported (node : NodeId) (epoch : Epoch) (networking : Networking)
    (rounds : UInt8) : Reported (Except DutyError (List SubnetId)) :=
  Reported.onSuccess (subscribedSubnets node epoch networking rounds) (.subnetsComputed epoch)

/-! ## Rotation -/

/-- The epoch in which the node's next period starts. -/
def SubnetParams.nextPeriodEpoch (params : SubnetParams) (node : NodeId) (epoch : Epoch) : Epoch :=
  let remainder := epoch % params.periodEpochs
  -- A node's periods start its offset before the multiples of the period length.
  let next :=
    Saturating.sub (Saturating.add epoch (params.periodEpochs - remainder)) (params.offset node)
  -- The start before the next multiple may have passed already.
  if next ≤ epoch then Saturating.add next params.periodEpochs else next

/-- The slot in which the node leaves its subnets for those of its next period. -/
def unsubscriptionSlot (node : NodeId) (slot : Slot) (networking : Networking)
    (clock : EpochClock) : Except DutyError Slot :=
  (SubnetParams.ofNetworking networking).map fun params =>
    clock.startSlot (params.nextPeriodEpoch node (clock.epochAt slot))

end BeaconDuties
