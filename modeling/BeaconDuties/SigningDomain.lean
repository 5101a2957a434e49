import BeaconDuties.MerkleTree

/-!
# SigningDomain — signatures bound to a fork and a purpose

A signature covers the root of its object together with a domain. The domain holds the kind of
message and the first 28 bytes of the root of the fork and chain, so a signature made for one kind,
fork or chain is worthless for another.

* `forkDataRoot`, `forkDigest` — a fork on a chain, and its short name;
* `signingDomain` — the domain of a kind of message;
* `signingRoot`, `signingRootOfBytes`, `signingRootOfWord` — what is signed;
* `DomainType.named?` — the kinds of messages by name.
-/

namespace BeaconDuties

/-! ## Domains -/

/-- The root of a fork version on the chain with the given genesis root. -/
def forkDataRoot (version : Version) (genesisRoot : Root) : Root :=
  (ForkData.mk version genesisRoot).root

/-- The first four bytes of the root of a fork. -/
def forkDigest (version : Version) (genesisRoot : Root) : ForkDigest :=
  Bytes.leading (forkDataRoot version genesisRoot) 4

/-- The kind of message followed by the first 28 bytes of the root of the fork. -/
def signingDomain (kind : DomainType) (version : Version) (genesisRoot : Root) : Domain :=
  kind ++ Bytes.leading (forkDataRoot version genesisRoot) 28

/-! ## Signing roots -/

/-- What is signed for an object under a domain. -/
def signingRoot (object : Signable) (domain : Domain) : Root :=
  (SigningData.mk object.root domain).root

def signingRootOfBytes (bytes : Array UInt8) (domain : Domain) : Root :=
  (SigningData.mk (MerkleTree.rootOfBytes bytes) domain).root

def signingRootOfWord (value : UInt64) (domain : Domain) : Root :=
  signingRoot (.uint64 value) domain

/-! ## Kinds of messages -/

def domainTypes : List (String × DomainType) := [
  ("BEACON_PROPOSER", .ofFour 0 0 0 0),
  ("BEACON_ATTESTER", .ofFour 1 0 0 0),
  ("RANDAO", .ofFour 2 0 0 0),
  ("DEPOSIT", .ofFour 3 0 0 0),
  ("VOLUNTARY_EXIT", .ofFour 4 0 0 0),
  ("SELECTION_PROOF", .ofFour 5 0 0 0),
  ("AGGREGATE_AND_PROOF", .ofFour 6 0 0 0),
  ("SYNC_COMMITTEE", .ofFour 7 0 0 0),
  ("APPLICATION_BUILDER", .ofFour 0 0 0 1)]

def DomainType.named? (name : String) : Option DomainType :=
  domainTypes.lookup name

end BeaconDuties
