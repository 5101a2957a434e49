import BeaconDuties.Document.Container
import BeaconDuties.Proofs.Document.Exact
import BeaconDuties.Proofs.Document.Network

/-!
# Container — written containers, draws and forks are read back

The text of a signing container, a draw, a fork schedule, a set of networking constants or a fork
spells that value again, whatever it holds.  Both containers are records of two byte strings, which
are read from the documents of just these strings, so nothing is read where a document gives a field
an array of another length or with an item out of range.

* `JsonValue.bytePair?`, `JsonValue.bytePair?_eq_some_iff` — two byte strings and their documents;
* `ForkData.ofJson?_eq`, `SigningData.ofJson?_eq` — a container is read as two byte strings;
* `JsonValue.spelled?`, `JsonValue.SpellsMisfit` — the value that a text spells, and the texts with
  an array that is no byte string;
* `containers_read_back` — which texts spell a value, and which spell none.
-/

namespace BeaconDuties

/-! ## Pairs of byte strings -/

namespace JsonValue

variable {first second name : String} {m n width : Nat} {tree value : JsonValue}
  {front : Bytes m} {back : Bytes n}

/-- The byte strings of a record of two. -/
def bytePair? (names : List String) (m n : Nat) (tree : JsonValue) :
    Option (Bytes m × Bytes n) := do
  let [front, back] ← tree.fields? names | none
  return (← front.bytes? m, ← back.bytes? n)

def pairFields (first second : String) (front : Bytes m) (back : Bytes n) :
    List (String × JsonValue) :=
  [(first, .ofBytes front), (second, .ofBytes back)]

/-- Two byte strings are read from themselves only. -/
theorem bytePair?_eq_some_iff {names : List String} :
    tree.bytePair? names m n = some (front, back) ↔
      tree.fields? names = some [.ofBytes front, .ofBytes back] := by
  constructor
  · intro hfound
    rcases Option.bind_eq_some_iff.1 hfound with ⟨values, hvalues, hpair⟩
    split at hpair
    · rcases Option.bind_eq_some_iff.1 hpair with ⟨bytes, hbytes, hrest⟩
      rcases Option.bind_eq_some_iff.1 hrest with ⟨others, hothers, hsame⟩
      cases hsame
      rw [hvalues, bytes?_eq_some_iff.1 hbytes, bytes?_eq_some_iff.1 hothers]
    · cases hpair
  · intro hfields
    rw [bytePair?, hfields]
    simp

theorem plain_pairFields : (record (pairFields first second front back)).Plain := by
  apply plain_record
  simp [pairFields, plain_ofBytes]

theorem bytePair?_record (hnames : first ≠ second) :
    (record (pairFields first second front back)).bytePair? [first, second] m n =
      some (front, back) := by
  refine bytePair?_eq_some_iff.2 ?_
  refine (arranges_record (pairFields first second front back)).fields?_eq ?_
  simpa [pairFields] using hnames

/-- Where a document gives one of the two another array, neither is read. -/
theorem Gives.bytePair?_eq_none (hgives : tree.Gives [first, second] name value)
    (hmisfits : value.Misfits width) (hnames : first ≠ second)
    (hfield : (name, width) ∈ [(first, m), (second, n)]) :
    tree.bytePair? [first, second] m n = none := by
  refine Option.eq_none_iff_forall_ne_some.2 ?_
  rintro ⟨front, back⟩ hpair
  have hread : tree.fields? [first, second] = some [.ofBytes front, .ofBytes back] :=
    bytePair?_eq_some_iff.1 hpair
  -- Had they been read, a byte string of the width would be what is read for the name.
  have hbytes : ∃ bytes : Bytes width,
      (name, ofBytes bytes) ∈ pairFields first second front back := by
    simp only [List.mem_cons, Prod.mk.injEq, List.not_mem_nil, or_false] at hfield
    rcases hfield with ⟨rfl, rfl⟩ | ⟨rfl, rfl⟩
    · exact ⟨front, List.mem_cons_self⟩
    · exact ⟨back, List.mem_cons_of_mem _ List.mem_cons_self⟩
  rcases hbytes with ⟨bytes, hbytes⟩
  have hgiven : tree.Gives ((pairFields first second front back).map Prod.fst) name value := hgives
  exact hgiven.not_misfits (by simpa [pairFields] using hnames) hread hbytes hmisfits

end JsonValue

/-! ## Containers -/

namespace ForkData

/-- The widths of the byte strings. -/
def fieldWidths : List (String × Nat) :=
  fieldNames.zip [4, 32]

theorem plain_toJson (data : ForkData) : data.toJson.Plain :=
  JsonValue.plain_pairFields

theorem ofJson?_eq (tree : JsonValue) : ofJson? tree =
    (tree.bytePair? fieldNames 4 32).map fun pair => ⟨pair.1, pair.2⟩ := by
  rw [ofJson?, JsonValue.bytePair?]
  cases tree.fields? fieldNames with
  | none => rfl
  | some values =>
    match values with
    | [front, back] =>
      cases hfront : front.bytes? 4 <;> cases hback : back.bytes? 32 <;> simp [hfront, hback]
    | [] | [_] | _ :: _ :: _ :: _ => rfl

theorem ofJson?_toJson (data : ForkData) : ofJson? data.toJson = some data := by
  have hpair : data.toJson.bytePair? fieldNames 4 32 =
      some (data.currentVersion, data.genesisValidatorsRoot) :=
    JsonValue.bytePair?_record (by decide)
  rw [ofJson?_eq, hpair, Option.map_some]

theorem ofJson?_of_misfits {tree value : JsonValue} {name : String} {width : Nat}
    (hgives : tree.Gives fieldNames name value) (hmisfits : value.Misfits width)
    (hfield : (name, width) ∈ fieldWidths) : ofJson? tree = none := by
  have hpair : tree.bytePair? fieldNames 4 32 = none :=
    hgives.bytePair?_eq_none hmisfits (by decide) hfield
  rw [ofJson?_eq, hpair, Option.map_none]

end ForkData

namespace SigningData

/-- The widths of the byte strings. -/
def fieldWidths : List (String × Nat) :=
  fieldNames.zip [32, 32]

theorem plain_toJson (data : SigningData) : data.toJson.Plain :=
  JsonValue.plain_pairFields

theorem ofJson?_eq (tree : JsonValue) : ofJson? tree =
    (tree.bytePair? fieldNames 32 32).map fun pair => ⟨pair.1, pair.2⟩ := by
  rw [ofJson?, JsonValue.bytePair?]
  cases tree.fields? fieldNames with
  | none => rfl
  | some values =>
    match values with
    | [front, back] =>
      cases hfront : front.bytes? 32 <;> cases hback : back.bytes? 32 <;> simp [hfront, hback]
    | [] | [_] | _ :: _ :: _ :: _ => rfl

theorem ofJson?_toJson (data : SigningData) : ofJson? data.toJson = some data := by
  have hpair : data.toJson.bytePair? fieldNames 32 32 = some (data.objectRoot, data.domain) :=
    JsonValue.bytePair?_record (by decide)
  rw [ofJson?_eq, hpair, Option.map_some]

theorem ofJson?_of_misfits {tree value : JsonValue} {name : String} {width : Nat}
    (hgives : tree.Gives fieldNames name value) (hmisfits : value.Misfits width)
    (hfield : (name, width) ∈ fieldWidths) : ofJson? tree = none := by
  have hpair : tree.bytePair? fieldNames 32 32 = none :=
    hgives.bytePair?_eq_none hmisfits (by decide) hfield
  rw [ofJson?_eq, hpair, Option.map_none]

end SigningData

/-! ## Draws and forks -/

namespace ProposerDraw

theorem plain_toJson (draw : ProposerDraw) : draw.toJson.Plain := by
  apply JsonValue.plain_record
  simp [fieldNames, JsonValue.plain_natural]

theorem ofJson?_toJson (draw : ProposerDraw) : ofJson? draw.toJson = some draw := by
  have hfields : draw.toJson.fields? fieldNames = some [.natural draw.index.toNat,
      .natural draw.iteration.toNat, .natural draw.randomValue.toNat,
      .natural draw.maxRandomValue.toNat] :=
    (JsonValue.arranges_record _).fields?_eq (by decide : fieldNames.Nodup)
  rw [ofJson?, hfields]
  simp

end ProposerDraw

namespace Milestone

theorem ofJson?_toJson (milestone : Milestone) : ofJson? milestone.toJson = some milestone := by
  have hname : ofJson? milestone.toJson =
      (JsonText.encode milestone.name.toList).decode?.bind fun name =>
        ofName? (String.ofList name) := rfl
  rw [hname, JsonText.decode?_encode, Option.bind_some, String.ofList_toList, ofName?_name]

end Milestone

/-! ## Texts -/

namespace JsonValue

variable {α : Type} {ofJson? : JsonValue → Option α} {tree : JsonValue}

/-- The value that a text spells. -/
def spelled? (ofJson? : JsonValue → Option α) (text : String) : Option α :=
  (parse? text).bind ofJson?

theorem spelled?_compact {value : α} (hplain : tree.Plain) (hread : ofJson? tree = some value) :
    spelled? ofJson? tree.compact = some value := by
  rw [spelled?, parse?_compact hplain, Option.bind_some, hread]

/-- A text whose document gives a field of bytes an array that is no byte string of its width. -/
def SpellsMisfit (fieldWidths : List (String × Nat)) (text : String) : Prop :=
  ∃ tree name width value, parse? text = some tree ∧ (name, width) ∈ fieldWidths ∧
    tree.Gives (fieldWidths.map Prod.fst) name value ∧ value.Misfits width

end JsonValue

open JsonValue (spelled? SpellsMisfit)

/-- Every value is spelled by its own text, and no container by a text in which one of its byte
strings is too short, too long or has an item out of range. -/
theorem containers_read_back :
    (∀ data : ForkData, spelled? ForkData.ofJson? data.toJson.compact = some data) ∧
    (∀ data : SigningData, spelled? SigningData.ofJson? data.toJson.compact = some data) ∧
    (∀ draw : ProposerDraw, spelled? ProposerDraw.ofJson? draw.toJson.compact = some draw) ∧
    (∀ schedule : ForkSchedule,
      spelled? ForkSchedule.ofJson? schedule.toJson.compact = some schedule) ∧
    (∀ networking : Networking,
      spelled? Networking.ofJson? networking.toJson.compact = some networking) ∧
    (∀ milestone : Milestone,
      spelled? Milestone.ofJson? milestone.toJson.compact = some milestone) ∧
    (∀ text, SpellsMisfit ForkData.fieldWidths text → spelled? ForkData.ofJson? text = none) ∧
    ∀ text, SpellsMisfit SigningData.fieldWidths text →
      spelled? SigningData.ofJson? text = none := by
  refine ⟨?_, ?_, ?_, ?_, ?_, ?_, ?_, ?_⟩
  · exact fun data => JsonValue.spelled?_compact data.plain_toJson data.ofJson?_toJson
  · exact fun data => JsonValue.spelled?_compact data.plain_toJson data.ofJson?_toJson
  · exact fun draw => JsonValue.spelled?_compact draw.plain_toJson draw.ofJson?_toJson
  · exact fun schedule =>
      JsonValue.spelled?_compact schedule.plain_toJson schedule.ofJson?_toJson
  · exact fun networking =>
      JsonValue.spelled?_compact networking.plain_toJson networking.ofJson?_toJson
  · exact fun milestone =>
      JsonValue.spelled?_compact (JsonValue.plain_string _) milestone.ofJson?_toJson
  · rintro text ⟨tree, name, width, value, htree, hfield, hgives, hmisfits⟩
    rw [spelled?, htree, Option.bind_some, ForkData.ofJson?_of_misfits hgives hmisfits hfield]
  · rintro text ⟨tree, name, width, value, htree, hfield, hgives, hmisfits⟩
    rw [spelled?, htree, Option.bind_some, SigningData.ofJson?_of_misfits hgives hmisfits hfield]

/-- Fork data with a version of three bytes. -/
def shortVersion : JsonValue :=
  .record [("current_version", .array (List.replicate 3 (.natural 0))),
    ("genesis_validators_root", .ofBytes (Bytes.zero 32))]

/-- Signing data, without its names, whose root begins with 256. -/
def largeByte : JsonValue :=
  .array [.array (.natural 256 :: List.replicate 31 (.natural 0)), .ofBytes (Bytes.zero 32)]

theorem containers_read_back_misfits :
    (SpellsMisfit ForkData.fieldWidths shortVersion.compact ∧
      spelled? ForkData.ofJson? shortVersion.compact = none) ∧
    SpellsMisfit SigningData.fieldWidths largeByte.compact ∧
      spelled? SigningData.ofJson? largeByte.compact = none := by
  have hshort : SpellsMisfit ForkData.fieldWidths shortVersion.compact := by
    refine ⟨shortVersion, "current_version", 4, .array (List.replicate 3 (.natural 0)), ?_, ?_⟩
    · refine JsonValue.parse?_compact (JsonValue.plain_record ?_)
      simp [JsonValue.plain_ofBytes, JsonValue.plain_natural, JsonValue.Plain.array]
    · refine ⟨List.mem_cons_self, .member List.mem_cons_self (JsonText.decode?_encode _), ?_⟩
      exact ⟨_, rfl, .inl (by decide)⟩
  have hlarge : SpellsMisfit SigningData.fieldWidths largeByte.compact := by
    refine ⟨largeByte, "object_root", 32,
      .array (.natural 256 :: List.replicate 31 (.natural 0)), ?_, ?_⟩
    · refine JsonValue.parse?_compact (.array ?_)
      simp [JsonValue.plain_ofBytes, JsonValue.plain_natural, JsonValue.Plain.array]
    · refine ⟨List.mem_cons_self, .item List.mem_cons_self, ?_⟩
      refine ⟨_, rfl, .inr ⟨.natural 256, List.mem_cons_self, ?_⟩⟩
      intro number hnumber hsame
      cases hsame
      exact absurd hnumber (by decide)
  rcases containers_read_back with ⟨_, _, _, _, _, _, hforkData, hsigningData⟩
  exact ⟨⟨hshort, hforkData _ hshort⟩, hlarge, hsigningData _ hlarge⟩

end BeaconDuties
