import BeaconDuties.Document.Network
import BeaconDuties.Proofs.Config.Validation
import BeaconDuties.Proofs.Document.Record
import BeaconDuties.Proofs.Document.VersionText

/-!
# Network — a written configuration is read back

Whatever a configuration holds, valid or not, its text spells that configuration again: the name
through its escapes, the version through its digits, and every number up to the largest.  So the
only thing that can go wrong in reading it is what validation finds fault with.

* `ForkSchedule.ofJson?_toJson`, `Networking.ofJson?_toJson`, `Config.ofJson?_toJson` — values are
  read back from their documents;
* `Config.read_eq_unreadable_iff` — which texts are refused as texts;
* `Config.read_toText` — what reading the text of a configuration answers.
-/

namespace BeaconDuties

/-! ## Documents -/

namespace ForkSchedule

theorem nodup_fieldNames : fieldNames.Nodup := by decide

theorem plain_toJson (schedule : ForkSchedule) : schedule.toJson.Plain := by
  apply JsonValue.plain_record
  simp [fields, fieldNames, JsonValue.plain_natural]

theorem ofJson?_of_arranges {schedule : ForkSchedule} {tree : JsonValue}
    (htree : JsonValue.Arranges schedule.fields tree) : ofJson? tree = some schedule := by
  have hfields : tree.fields? fieldNames = some (schedule.fields.map Prod.snd) :=
    htree.fields?_eq nodup_fieldNames
  rw [ofJson?, hfields]
  simp [fields, fieldNames]

theorem ofJson?_of_misarranges {schedule : ForkSchedule} {tree : JsonValue}
    (htree : JsonValue.Misarranges schedule.fields tree) : ofJson? tree = none := by
  have hfields : tree.fields? fieldNames = none := htree.fields?_eq_none nodup_fieldNames
  rw [ofJson?, hfields]
  rfl

theorem ofJson?_toJson (schedule : ForkSchedule) : ofJson? schedule.toJson = some schedule :=
  ofJson?_of_arranges (JsonValue.arranges_record schedule.fields)

end ForkSchedule

namespace Networking

theorem nodup_fieldNames : fieldNames.Nodup := by decide

theorem plain_toJson (networking : Networking) : networking.toJson.Plain := by
  apply JsonValue.plain_record
  simp [fields, fieldNames, JsonValue.plain_natural]

theorem ofJson?_of_arranges {networking : Networking} {tree : JsonValue}
    (htree : JsonValue.Arranges networking.fields tree) : ofJson? tree = some networking := by
  have hfields : tree.fields? fieldNames = some (networking.fields.map Prod.snd) :=
    htree.fields?_eq nodup_fieldNames
  rw [ofJson?, hfields]
  simp [fields, fieldNames]

theorem ofJson?_of_misarranges {networking : Networking} {tree : JsonValue}
    (htree : JsonValue.Misarranges networking.fields tree) : ofJson? tree = none := by
  have hfields : tree.fields? fieldNames = none := htree.fields?_eq_none nodup_fieldNames
  rw [ofJson?, hfields]
  rfl

theorem ofJson?_toJson (networking : Networking) : ofJson? networking.toJson = some networking :=
  ofJson?_of_arranges (JsonValue.arranges_record networking.fields)

end Networking

namespace Config

theorem nodup_fieldNames : fieldNames.Nodup := by decide

variable {config : Config} {schedule networking tree : JsonValue}

theorem plain_record_fields (config : Config) (hschedule : schedule.Plain)
    (hnetworking : networking.Plain) :
    (JsonValue.record (config.fields schedule networking)).Plain := by
  apply JsonValue.plain_record
  simp [fields, fieldNames, JsonValue.plain_natural, JsonValue.plain_string, hschedule,
    hnetworking]

theorem plain_toJson (config : Config) : config.toJson.Plain :=
  config.plain_record_fields config.forkSchedule.plain_toJson config.networking.plain_toJson

/-- What is read from a document of a configuration is decided by the documents of its two inner
records. -/
theorem ofJson?_of_arranges (htree : JsonValue.Arranges (config.fields schedule networking) tree) :
    ofJson? tree = (ForkSchedule.ofJson? schedule).bind fun forkSchedule =>
      (Networking.ofJson? networking).bind fun networking =>
        some { config with forkSchedule, networking } := by
  have hfields : tree.fields? fieldNames =
      some ((config.fields schedule networking).map Prod.snd) :=
    htree.fields?_eq nodup_fieldNames
  rw [ofJson?, hfields]
  simp [fields, fieldNames, VersionText.parse?_render]

theorem ofJson?_of_misarranges
    (htree : JsonValue.Misarranges (config.fields schedule networking) tree) :
    ofJson? tree = none := by
  have hfields : tree.fields? fieldNames = none := htree.fields?_eq_none nodup_fieldNames
  rw [ofJson?, hfields]
  rfl

theorem ofJson?_toJson (config : Config) : ofJson? config.toJson = some config := by
  rw [toJson, ofJson?_of_arranges (JsonValue.arranges_record _), ForkSchedule.ofJson?_toJson,
    Networking.ofJson?_toJson]
  rfl

/-! ## Texts -/

/-- The text of a configuration spells the configuration, valid or not. -/
theorem spelled?_toText (config : Config) : spelled? config.toText = some config := by
  rw [spelled?, toText, JsonValue.parse?_pretty config.plain_toJson, Option.bind_some,
    ofJson?_toJson]

theorem value_readReported (text : String) : (readReported text).value = read text := by
  rw [readReported, read]
  cases spelled? text with
  | none => rfl
  | some config => simp [value_validateReported]

/-- Only a text that spells no configuration is refused as a text. -/
theorem read_eq_unreadable_iff {text : String} :
    read text = .error .unreadable ↔ spelled? text = none := by
  rw [read]
  cases spelled? text with
  | none => simp
  | some config =>
    have hreadable := config.validate_ne_unreadable
    cases hvalidate : config.validate with
    | ok => simp [hvalidate, Except.map]
    | error cause => simpa [hvalidate, Except.map] using hreadable

/-- The text of a configuration is read as the configuration if that is valid, and is refused with
the fault that validation finds if not; it is never refused as a text. -/
theorem read_toText (config : Config) :
    read config.toText = (match config.validate with
      | .ok () => .ok config
      | .error cause => .error cause) ∧
    (readReported config.toText).value = read config.toText ∧
    read config.toText ≠ .error .unreadable := by
  have hspelled := config.spelled?_toText
  refine ⟨?_, value_readReported config.toText, ?_⟩
  · cases hvalidate : config.validate with
    | ok => simp [read, hspelled, hvalidate, Except.map]
    | error cause => simp [read, hspelled, hvalidate, Except.map]
  · intro hrefused
    rw [read_eq_unreadable_iff, hspelled] at hrefused
    cases hrefused

end Config

end BeaconDuties
