import BeaconDuties.Error

/-!
# Networking — the constants of subnets and requests

How many attestation subnets there are, how many each node holds, which part of a node's id places
it, how long it stays, and how many blocks a request by range may ask for.
-/

namespace BeaconDuties

structure Networking where
  attestationSubnetCount : UInt64
  subnetsPerNode : UInt64
  attestationSubnetPrefixBits : UInt8
  epochsPerSubnetSubscription : UInt64
  maxRequestBlocks : UInt64
  maxRequestBlocksDeneb : UInt64
  deriving DecidableEq, Repr

namespace Networking

/-- The constants that public networks share. -/
def standard : Networking where
  attestationSubnetCount := 64
  subnetsPerNode := 2
  attestationSubnetPrefixBits := 6
  epochsPerSubnetSubscription := 256
  maxRequestBlocks := 1024
  maxRequestBlocksDeneb := 128

/-- Whether the subnet constants make sense: some subnets, no more per node than there are, a
prefix of 1 to 32 bits, and a subscription that lasts. The first fault in this order is reported. -/
def validate (networking : Networking) : Except ConfigError Unit :=
  if networking.attestationSubnetCount = 0 then
    .error (.zero .attestationSubnetCount)
  else if networking.attestationSubnetCount < networking.subnetsPerNode then
    .error (.tooManySubnetsPerNode networking.subnetsPerNode networking.attestationSubnetCount)
  else if networking.attestationSubnetPrefixBits = 0 ∨
      32 < networking.attestationSubnetPrefixBits then
    .error (.prefixBitsOutOfRange networking.attestationSubnetPrefixBits)
  else if networking.epochsPerSubnetSubscription = 0 then
    .error (.zero .epochsPerSubnetSubscription)
  else .ok ()

end Networking

end BeaconDuties
