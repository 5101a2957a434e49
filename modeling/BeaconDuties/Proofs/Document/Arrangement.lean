import BeaconDuties.Proofs.Document.Network

/-!
# Arrangement — the texts of a configuration

The text that is written is one of many from which the same configuration is read.  In each of its
three records the members may stand in any order and among others of unknown names, whatever those
hold, or the values may stand alone in an array, and blanks may stand between all words.  What may
not happen is that a record lacks one of its members or has it twice.

* `Config.Arranges`, `Config.Misarranges` — the documents of a configuration, and the faulty ones;
* `Config.Arranges.ofJson?_eq`, `Config.Misarranges.ofJson?_eq_none` — what is read from them;
* `Config.read_arranged` — what reading their texts answers.
-/

namespace BeaconDuties

namespace Config

variable {config : Config} {tree : JsonValue}

/-- The documents of a configuration: a document of the record that it is, in which the two inner
records have documents of theirs. -/
inductive Arranges (config : Config) (tree : JsonValue) : Prop where
  | parts {schedule networking : JsonValue} :
      JsonValue.Arranges config.forkSchedule.fields schedule →
      JsonValue.Arranges config.networking.fields networking →
      JsonValue.Arranges (config.fields schedule networking) tree → Arranges config tree

/-- The faulty documents of a configuration: the record that it is, or an inner one, lacks a member
or has one too many. -/
inductive Misarranges (config : Config) (tree : JsonValue) : Prop where
  | whole {schedule networking : JsonValue} :
      JsonValue.Misarranges (config.fields schedule networking) tree → Misarranges config tree
  | schedule {schedule networking : JsonValue} :
      JsonValue.Misarranges config.forkSchedule.fields schedule →
      JsonValue.Arranges (config.fields schedule networking) tree → Misarranges config tree
  | networking {schedule networking : JsonValue} :
      JsonValue.Misarranges config.networking.fields networking →
      JsonValue.Arranges (config.fields schedule networking) tree → Misarranges config tree

theorem arranges_toJson (config : Config) : config.Arranges config.toJson :=
  .parts (JsonValue.arranges_record _) (JsonValue.arranges_record _) (JsonValue.arranges_record _)

/-! ## Reading -/

theorem Arranges.ofJson?_eq (htree : config.Arranges tree) : ofJson? tree = some config := by
  cases htree with
  | parts hschedule hnetworking hwhole =>
    rw [ofJson?_of_arranges hwhole, ForkSchedule.ofJson?_of_arranges hschedule,
      Networking.ofJson?_of_arranges hnetworking]
    rfl

theorem Misarranges.ofJson?_eq_none (htree : config.Misarranges tree) : ofJson? tree = none := by
  cases htree with
  | whole hwhole => exact ofJson?_of_misarranges hwhole
  | schedule hschedule hwhole =>
    rw [ofJson?_of_arranges hwhole, ForkSchedule.ofJson?_of_misarranges hschedule]
    rfl
  | @networking schedule _ hnetworking hwhole =>
    rw [ofJson?_of_arranges hwhole, Networking.ofJson?_of_misarranges hnetworking]
    -- The fork schedule is looked at first, and may be at fault as well.
    cases ForkSchedule.ofJson? schedule with
    | none => rfl
    | some forkSchedule => rfl

/-- A valid configuration is read from every text of every one of its documents, of which its own
text is one, and each text of a faulty document is refused as a text. -/
theorem read_arranged (config : Config) (hvalid : config.validate = .ok ()) :
    (config.Arranges config.toJson ∧ config.toJson.WrittenIn config.toText) ∧
    (∀ tree text, config.Arranges tree → tree.WrittenIn text → read text = .ok config) ∧
    (∀ tree text, config.Misarranges tree → tree.WrittenIn text →
      read text = .error .unreadable) := by
  refine ⟨⟨config.arranges_toJson, ?_⟩, ?_, ?_⟩
  · exact JsonValue.writtenIn_render JsonLayout.blank_indented config.plain_toJson
  · intro tree text htree htext
    have hspelled : spelled? text = some config := by
      rw [spelled?, JsonValue.parse?_of_writtenIn htext, Option.bind_some, htree.ofJson?_eq]
    simp [read, hspelled, hvalid, Except.map]
  · intro tree text htree htext
    rw [read_eq_unreadable_iff, spelled?, JsonValue.parse?_of_writtenIn htext, Option.bind_some,
      htree.ofJson?_eq_none]

/-- The minimal network with a note in front, all members in reverse and its forks in an array. -/
def minimalReversed : JsonValue :=
  .object ((JsonText.encode "note".toList, .record [("networking", .array [])]) ::
    (JsonValue.membersOf (minimal.fields (.array (minimal.forkSchedule.fields.map Prod.snd))
      minimal.networking.toJson)).reverse)

/-- The minimal network without its number of attestation subnets. -/
def minimalTruncated : JsonValue :=
  .record (minimal.fields minimal.forkSchedule.toJson (.record minimal.networking.fields.tail))

theorem plain_minimalReversed : minimalReversed.Plain := by
  have hforks : (JsonValue.array (minimal.forkSchedule.fields.map Prod.snd)).Plain := by
    refine .array ?_
    simp [ForkSchedule.fields, ForkSchedule.fieldNames, JsonValue.plain_natural]
  have hrecord := minimal.plain_record_fields hforks minimal.networking.plain_toJson
  have hnote : (JsonValue.record [("networking", .array [])]).Plain := by
    refine JsonValue.plain_record ?_
    intro field hfield
    rw [List.mem_singleton.1 hfield]
    exact .array (by simp)
  exact .cons (JsonText.plain_encode _) hnote (hrecord.perm (List.reverse_perm _))

theorem plain_minimalTruncated : minimalTruncated.Plain := by
  refine minimal.plain_record_fields minimal.forkSchedule.plain_toJson (JsonValue.plain_record ?_)
  simp [Networking.fields, Networking.fieldNames, JsonValue.plain_natural]

/-- The minimal network is read from one rearrangement of its document and refused from another that
lacks a member. -/
theorem read_arranged_minimal :
    minimal.validate = .ok () ∧
    (minimal.Arranges minimalReversed ∧ minimalReversed.WrittenIn minimalReversed.compact ∧
      read minimalReversed.compact = .ok minimal) ∧
    minimal.Misarranges minimalTruncated ∧ minimalTruncated.WrittenIn minimalTruncated.compact ∧
      read minimalTruncated.compact = .error .unreadable := by
  have harranged : minimal.Arranges minimalReversed := by
    refine .parts .array (JsonValue.arranges_record _) (.cons ?_ ?_)
    · exact ⟨"note".toList, JsonText.decode?_encode _, by decide⟩
    · exact (JsonValue.arranges_record _).perm (List.reverse_perm _)
  have hmisarranged : minimal.Misarranges minimalTruncated := by
    refine .networking ?_ (JsonValue.arranges_record _)
    exact @JsonValue.Misarranges.missing _ "attestation_subnet_count" _ [] _ (by decide)
      (JsonText.decode?_encode _) (JsonValue.arranges_record minimal.networking.fields)
  have hreversed := JsonValue.writtenIn_render JsonLayout.blank_compact plain_minimalReversed
  have htruncated := JsonValue.writtenIn_render JsonLayout.blank_compact plain_minimalTruncated
  rcases read_arranged minimal rfl with ⟨_, hread, hrefuse⟩
  exact ⟨rfl, ⟨harranged, hreversed, hread _ _ harranged hreversed⟩, hmisarranged, htruncated,
    hrefuse _ _ hmisarranged htruncated⟩

end Config

end BeaconDuties
