import BeaconDuties.Json.Printer
import BeaconDuties.Proofs.Json.Grammar

/-!
# Spelling — a text of a tree is read as the tree

A tree is written word by word, and a layout puts blanks between the words, so what is written is
one of the texts of the tree.  Numbers that are not plain are left aside, since they are kept as
spelled and the library writes none.

* `JsonValue.Plain` — the trees without such numbers, and with every control character escaped;
* `TextPart.spelling_render`, `JsonScalar.spelling_render` — scalars as they are written;
* `JsonValue.written_render` — the words of a tree as they are written;
* `JsonValue.parse?_pretty`, `JsonValue.parse?_compact` — a tree is read back from its text.
-/

namespace BeaconDuties

/-! ## Strings -/

/-- A control character is written by a letter or by its code, never as itself. -/
def TextPart.Plain : TextPart → Prop
  | .char c => 0x20 ≤ c.toNat ∨ JsonText.hasLetter c
  | .unit _ => True

def JsonText.Plain (contents : JsonText) : Prop :=
  ∀ part ∈ contents, part.Plain

namespace TextPart

/-- A code unit is written by four digits of its own. -/
theorem spelling_render_unit (value : UInt16) :
    (TextPart.unit value).Spelling (TextPart.unit value).render := by
  have hbound : value.toNat < 65536 := value.toNat_lt
  have hdigit : ∀ half < 16, Hex.Denotes (Hex.digit half) half := fun half hhalf =>
    Hex.value?_eq_some_iff.1 (Hex.value?_digit hhalf)
  have hvalue : UInt16.ofNat (4096 * (value.toNat / 4096) + 256 * (value.toNat / 256 % 16) +
      16 * (value.toNat / 16 % 16) + value.toNat % 16) = value := by
    rw [← UInt16.toNat_inj, UInt16.toNat_ofNat']
    omega
  have hspelling := Spelling.unit (hdigit (value.toNat / 4096) (by omega))
    (hdigit (value.toNat / 256 % 16) (by omega)) (hdigit (value.toNat / 16 % 16) (by omega))
    (hdigit (value.toNat % 16) (by omega))
  rwa [hvalue] at hspelling

theorem spelling_render {part : TextPart} (hplain : part.Plain) : part.Spelling part.render := by
  fun_cases TextPart.render part with
  -- Two marks and five control characters have an escape of one letter.
  | case1 | case2 | case3 | case4 | case5 | case6 | case7 => exact .letter (by decide)
  | case8 c hquote hbackslash hb ht hn hf hr =>
    have hprintable : 0x20 ≤ c.toNat := by
      rcases hplain with hprintable | hletter
      · exact hprintable
      · simp [JsonText.hasLetter] at hletter
        tauto
    exact .plain hprintable hquote hbackslash
  | case9 value => exact spelling_render_unit value

end TextPart

theorem JsonText.spelling_flatMap_render {contents : JsonText} (hplain : contents.Plain) :
    contents.Spelling (contents.flatMap TextPart.render) := by
  induction contents with
  | nil => exact .nil
  | cons part contents ih =>
    have hpart : part.Plain := hplain part List.mem_cons_self
    have hcontents : JsonText.Plain contents := fun other hother =>
      hplain other (List.mem_cons_of_mem part hother)
    exact .cons (TextPart.spelling_render hpart) (ih hcontents)

/-! ## Scalars -/

def JsonScalar.Plain : JsonScalar → Prop
  | .decimal _ => False
  | .text contents => contents.Plain
  | _ => True

theorem JsonScalar.spelling_render {value : JsonScalar} (hplain : value.Plain) :
    value.Spelling value.render := by
  cases value with
  | null => exact .null
  | bool value =>
    cases value with
    | false => exact .false
    | true => exact .true
  | natural value => exact .natural value
  | decimal spelling => exact hplain.elim
  | text contents => exact .text (JsonText.spelling_flatMap_render hplain)

open JsonToken

/-! ## Layouts -/

/-- A layout that puts nothing but blanks between words. -/
structure JsonLayout.Blank (layout : JsonLayout) : Prop where
  lineBreak : ∀ depth, ∀ c ∈ layout.lineBreak depth, isBlank c
  afterColon : ∀ c ∈ layout.afterColon, isBlank c

theorem JsonLayout.blank_compact : JsonLayout.compact.Blank where
  lineBreak := by simp [JsonLayout.compact]
  afterColon := by simp [JsonLayout.compact]

theorem JsonLayout.blank_indented : JsonLayout.indented.Blank where
  lineBreak := by
    intro depth c hc
    rcases List.mem_cons.1 hc with rfl | hc
    · rfl
    · rw [List.eq_of_mem_replicate hc]
      rfl
  afterColon := by simp [JsonLayout.indented, isBlank]

/-! ## Texts -/

namespace JsonToken

variable {tokens : List JsonToken} {s : List Char}

/-- A word may stand right in front of a text. -/
theorem Written.cons {token : JsonToken} {word : List Char} (hword : token.Spelling word)
    (hs : Written tokens s) : Written (token :: tokens) (word ++ s) :=
  .word (fun _ hc => absurd hc List.not_mem_nil) hword hs

/-- Blanks may stand in front of a text. -/
theorem Written.blanks {blanks : List Char} (hblanks : ∀ c ∈ blanks, isBlank c)
    (hs : Written tokens s) : Written tokens (blanks ++ s) := by
  have hmore : ∀ {more}, Blanks more → Blanks (blanks ++ more) := by
    intro more hmore c hc
    rcases List.mem_append.1 hc with hc | hc
    · exact isBlank_iff.1 (hblanks c hc)
    · exact hmore c hc
  cases hs with
  | done hblanks' => exact .done (hmore hblanks')
  | word hblanks' hword hrest =>
    rw [← List.append_assoc, ← List.append_assoc]
    exact .word (hmore hblanks') hword hrest

/-- The name of a member and the blanks behind its colon may stand in front of its value. -/
theorem Written.member {layout : JsonLayout} (hblank : layout.Blank) {name : JsonText}
    (hname : name.Plain) (hs : Written tokens s) :
    Written (.scalar (.text name) :: colon :: tokens)
      (name.render ++ ':' :: (layout.afterColon ++ s)) :=
  .cons (.scalar (.text (JsonText.spelling_flatMap_render hname)))
    (.cons .colon (hs.blanks hblank.afterColon))

end JsonToken

/-! ## Trees -/

namespace JsonValue

/-- A tree whose numbers are plain and whose strings escape their control characters. -/
inductive Plain : JsonValue → Prop where
  | scalar {value : JsonScalar} : value.Plain → Plain (.scalar value)
  | array {items : List JsonValue} : (∀ item ∈ items, Plain item) → Plain (.array items)
  | object {members : List (JsonText × JsonValue)} :
      (∀ member ∈ members, member.1.Plain) → (∀ member ∈ members, Plain member.2) →
      Plain (.object members)

variable {layout : JsonLayout}

mutual

/-- A tree is written in its words, in front of any text. -/
theorem written_render (hblank : layout.Blank) (value : JsonValue) (hplain : value.Plain)
    (depth : Nat) {tokens : List JsonToken} {s : List Char} (hs : Written tokens s) :
    Written (value.tokens ++ tokens) (value.render layout depth ++ s) := by
  match value, hplain with
  | .scalar value, .scalar hvalue => exact .cons (.scalar (JsonScalar.spelling_render hvalue)) hs
  | .array [], _ =>
    simpa [render, JsonValue.tokens] using (hs.cons .closeArray).cons .openArray
  | .array (first :: items), .array hitems =>
    have hclose := (hs.cons .closeArray).blanks (hblank.lineBreak depth)
    have hmore := written_renderItems hblank items
      (fun item hitem => hitems item (List.mem_cons_of_mem first hitem)) (depth + 1) hclose
    have hfirst := written_render hblank first (hitems first List.mem_cons_self) (depth + 1) hmore
    simpa [render, JsonValue.tokens] using
      (hfirst.blanks (hblank.lineBreak (depth + 1))).cons .openArray
  | .object [], _ =>
    simpa [render, JsonValue.tokens] using (hs.cons .closeObject).cons .openObject
  | .object ((name, first) :: members), .object hnames hmembers =>
    have hclose := (hs.cons .closeObject).blanks (hblank.lineBreak depth)
    have hmore := written_renderMembers hblank members
      (fun member hmember => hnames member (List.mem_cons_of_mem _ hmember))
      (fun member hmember => hmembers member (List.mem_cons_of_mem _ hmember)) (depth + 1) hclose
    have hfirst := written_render hblank first (hmembers (name, first) List.mem_cons_self)
      (depth + 1) hmore
    have hmember := hfirst.member hblank (hnames (name, first) List.mem_cons_self)
    simpa [render, JsonValue.tokens] using
      (hmember.blanks (hblank.lineBreak (depth + 1))).cons .openObject

theorem written_renderItems (hblank : layout.Blank) (items : List JsonValue)
    (hplain : ∀ item ∈ items, item.Plain) (depth : Nat) {tokens : List JsonToken} {s : List Char}
    (hs : Written tokens s) :
    Written (itemTokens items ++ tokens) (renderItems layout depth items ++ s) := by
  match items with
  | [] => exact hs
  | item :: items =>
    have hmore := written_renderItems hblank items
      (fun other hother => hplain other (List.mem_cons_of_mem item hother)) depth hs
    have hitem := written_render hblank item (hplain item List.mem_cons_self) depth hmore
    simpa [renderItems, itemTokens] using (hitem.blanks (hblank.lineBreak depth)).cons .comma

theorem written_renderMembers (hblank : layout.Blank) (members : List (JsonText × JsonValue))
    (hnames : ∀ member ∈ members, member.1.Plain) (hplain : ∀ member ∈ members, member.2.Plain)
    (depth : Nat) {tokens : List JsonToken} {s : List Char} (hs : Written tokens s) :
    Written (memberTokens members ++ tokens) (renderMembers layout depth members ++ s) := by
  match members with
  | [] => exact hs
  | (name, value) :: members =>
    have hmore := written_renderMembers hblank members
      (fun member hmember => hnames member (List.mem_cons_of_mem _ hmember))
      (fun member hmember => hplain member (List.mem_cons_of_mem _ hmember)) depth hs
    have hvalue := written_render hblank value (hplain (name, value) List.mem_cons_self) depth hmore
    have hmember := hvalue.member hblank (hnames (name, value) List.mem_cons_self)
    simpa [renderMembers, memberTokens] using (hmember.blanks (hblank.lineBreak depth)).cons .comma

end

/-- What is written is a text of the tree, whatever blanks the layout puts between its words. -/
theorem writtenIn_render (hblank : layout.Blank) {value : JsonValue} (hplain : value.Plain) :
    value.WrittenIn (String.ofList (value.render layout 0)) := by
  have hend : Written [] [] := .done fun _ hc => absurd hc List.not_mem_nil
  have hwritten := written_render hblank value hplain 0 hend
  rw [List.append_nil, List.append_nil] at hwritten
  rwa [WrittenIn, String.toList_ofList]

theorem parse?_compact {value : JsonValue} (hplain : value.Plain) :
    parse? value.compact = some value :=
  parse?_of_writtenIn (writtenIn_render JsonLayout.blank_compact hplain)

theorem parse?_pretty {value : JsonValue} (hplain : value.Plain) :
    parse? value.pretty = some value :=
  parse?_of_writtenIn (writtenIn_render JsonLayout.blank_indented hplain)

end JsonValue

end BeaconDuties
