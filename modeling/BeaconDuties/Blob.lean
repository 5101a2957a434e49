import BeaconDuties.Event
import BeaconDuties.Sha256

/-!
# Blob — tying blob sidecars to their block

A block lists a commitment for each of its blobs, and the blobs travel beside it in sidecars. The
checks here compare sidecars with the block; proofs are left to an oracle that answers for whole
batches and remembers what it was asked.

* `versionedHash` — the name of a commitment;
* `BlobSidecar.checkComplete` — the sidecars are the block's blobs, all of them and in order;
* `BlobSidecar.checkListed` — every sidecar is one of the block's blobs;
* `KzgBatch`, `KzgOracle` — questions about proofs, and who answers them;
* `BlobSidecar.verifyBatch`, `BlobSidecar.verify` — asking about several sidecars, or one.
-/

namespace BeaconDuties

/-! ## Commitments -/

/-- The version byte of hashes that name a KZG commitment. -/
def kzgHashVersion : UInt8 := 1

/-- The digest of a commitment with the version byte in front. -/
def versionedHash (commitment : KzgCommitment) : VersionedHash :=
  (Sha256.hash commitment.toArray).set 0 kzgHashVersion

/-- A blob with its place in the block, its commitment and its proof. -/
structure BlobSidecar where
  index : UInt64
  blob : Array UInt8
  commitment : KzgCommitment
  proof : KzgProof
  deriving DecidableEq

/-! ## Proofs -/

structure KzgBatch where
  blobs : List (Array UInt8)
  commitments : List KzgCommitment
  proofs : List KzgProof
  deriving DecidableEq

/-- Whether all three lists of a batch are equally long. -/
def KzgBatch.isEven (batch : KzgBatch) : Bool :=
  batch.blobs.length == batch.commitments.length && batch.blobs.length == batch.proofs.length

def KzgBatch.ofSidecars (sidecars : List BlobSidecar) : KzgBatch where
  blobs := sidecars.map BlobSidecar.blob
  commitments := sidecars.map BlobSidecar.commitment
  proofs := sidecars.map BlobSidecar.proof

/-- Who answers for proofs: its answers, the batches it was asked about, oldest first, and how many
of them got a verdict. -/
structure KzgOracle where
  answer : KzgBatch → Except DutyError Bool
  asked : List KzgBatch
  verdicts : Nat

namespace KzgOracle

def ofAnswer (answer : KzgBatch → Except DutyError Bool) : KzgOracle where
  answer := answer
  asked := []
  verdicts := 0

/-- An oracle with one verdict for every batch whose lists are equally long. -/
def constant (verdict : Bool) : KzgOracle :=
  ofAnswer fun batch =>
    if batch.isEven then .ok verdict
    else .error (.invalidArgument
      (.batchLengths batch.blobs.length batch.commitments.length batch.proofs.length))

def failing (reason : String) : KzgOracle :=
  ofAnswer fun _ => .error (.invalidArgument (.stated reason))

def ask (oracle : KzgOracle) (batch : KzgBatch) : Except DutyError Bool × KzgOracle :=
  let answer := oracle.answer batch
  (answer, { oracle with
    asked := oracle.asked ++ [batch]
    verdicts := oracle.verdicts + if answer.isOk then 1 else 0 })

end KzgOracle

namespace BlobSidecar

/-- Asks about the proofs of several sidecars, reported once there is a verdict. -/
def verifyBatch (oracle : KzgOracle) (sidecars : List BlobSidecar) :
    Reported (Except DutyError Bool × KzgOracle) := do
  let (answer, oracle) := oracle.ask (.ofSidecars sidecars)
  let answer ← Reported.onSuccess answer (.batchVerified sidecars.length)
  pure (answer, oracle)

def verify (oracle : KzgOracle) (sidecar : BlobSidecar) :
    Reported (Except DutyError Bool × KzgOracle) :=
  verifyBatch oracle [sidecar]

/-! ## Blocks -/

/-- Compares sidecars with commitments place by place, from a position on: each sidecar names its
place, and its commitment is the one there. -/
def checkFrom : (position : Nat) → List BlobSidecar → List KzgCommitment → Except DutyError Unit
  | position, sidecar :: sidecars, commitment :: commitments =>
    if sidecar.index.toNat ≠ position then
      .error (.invalidArgument (.sidecarPosition position sidecar.index))
    else if sidecar.commitment ≠ commitment then
      .error (.invalidArgument (.commitmentMismatch sidecar.index))
    else checkFrom (position + 1) sidecars commitments
  -- The lists end together, since their lengths are compared first.
  | _, _, _ => .ok ()

/-- Whether sidecars are exactly the blobs of a block, in order. -/
def checkComplete (sidecars : List BlobSidecar) (commitments : List KzgCommitment) :
    Except DutyError Unit :=
  if sidecars.length ≠ commitments.length then
    .error (.invalidArgument (.sidecarCount commitments.length sidecars.length))
  else checkFrom 0 sidecars commitments

/-- Whether every sidecar, in whatever order, is the blob of a block that it says it is. -/
def checkListed (commitments : List KzgCommitment) : List BlobSidecar → Except DutyError Unit
  | [] => .ok ()
  | sidecar :: rest =>
    match commitments[sidecar.index.toNat]? with
    | none => .error (.indexOutOfRange sidecar.index.toNat commitments.length)
    | some commitment =>
      if sidecar.commitment ≠ commitment then
        .error (.invalidArgument (.commitmentMismatch sidecar.index))
      else checkListed commitments rest

end BlobSidecar

end BeaconDuties
