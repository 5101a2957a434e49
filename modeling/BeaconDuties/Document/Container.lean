import BeaconDuties.Document.Record
import BeaconDuties.MerkleTree
import BeaconDuties.Milestone
import BeaconDuties.Proposer

/-!
# Container — signing containers, draws and forks as documents

Containers and draws are records; the byte strings in them are arrays of numbers. A fork is the
string of its name, and may also be read from an object whose only member has that name and nothing
in it.
-/

namespace BeaconDuties

/-! ## Containers -/

namespace ForkData

def fieldNames : List String :=
  ["current_version", "genesis_validators_root"]

def toJson (data : ForkData) : JsonValue :=
  .record (fieldNames.zip [.ofBytes data.currentVersion, .ofBytes data.genesisValidatorsRoot])

def ofJson? (value : JsonValue) : Option ForkData := do
  let [version, root] ← value.fields? fieldNames | none
  return ⟨← version.bytes? 4, ← root.bytes? 32⟩

end ForkData

namespace SigningData

def fieldNames : List String :=
  ["object_root", "domain"]

def toJson (data : SigningData) : JsonValue :=
  .record (fieldNames.zip [.ofBytes data.objectRoot, .ofBytes data.domain])

def ofJson? (value : JsonValue) : Option SigningData := do
  let [root, domain] ← value.fields? fieldNames | none
  return ⟨← root.bytes? 32, ← domain.bytes? 32⟩

end SigningData

/-! ## Draws -/

namespace ProposerDraw

def fieldNames : List String :=
  ["index", "iteration", "random_value", "max_random_value"]

def toJson (draw : ProposerDraw) : JsonValue :=
  .record (fieldNames.zip [.natural draw.index.toNat, .natural draw.iteration.toNat,
    .natural draw.randomValue.toNat, .natural draw.maxRandomValue.toNat])

def ofJson? (value : JsonValue) : Option ProposerDraw := do
  let [index, iteration, random, maxRandom] ← value.fields? fieldNames | none
  return ⟨← index.uint64?, ← iteration.uint64?, ← random.uint64?, ← maxRandom.uint64?⟩

end ProposerDraw

/-! ## Forks -/

namespace Milestone

def toJson (milestone : Milestone) : JsonValue :=
  .string milestone.name

def ofJson? : JsonValue → Option Milestone
  | .scalar (.text name) => name.decode?.bind fun name => ofName? (String.ofList name)
  | .object [(name, .scalar .null)] => name.decode?.bind fun name => ofName? (String.ofList name)
  | _ => none

end Milestone

end BeaconDuties
