import BeaconDuties.Document.Record
import BeaconDuties.Proofs.Json.Spelling

/-!
# Record — records are read by the names of their fields

A record is read from an object by looking for each of its names.  What decides the answer is how
many members have a name, however that is spelled: with one member for each name the values are
found, wherever those members stand and whatever else the object holds, and with none or several for
some name nothing is.

* `JsonText.decode?_encode` — characters are decoded from the contents they are encoded as;
* `JsonValue.named`, `JsonValue.Unknown` — the members of a name, and those of no known name;
* `JsonValue.Arranges`, `JsonValue.Arranges.fields?_eq` — the documents of a record, from each of
  which its values are read;
* `JsonValue.Misarranges`, `JsonValue.Misarranges.fields?_eq_none` — the objects that lack or repeat
  a field, from which nothing is read;
* `JsonValue.plain_record` — a record of plain values is plain.
-/

namespace BeaconDuties

/-! ## Strings -/

namespace JsonText

theorem plain_encode (chars : List Char) : (encode chars).Plain := by
  intro part hpart
  rcases List.mem_map.1 hpart with ⟨c, _, rfl⟩
  rw [encodeChar]
  split
  · trivial
  · rename_i hshown
    simp only [Bool.and_eq_true, decide_eq_true_eq, Bool.not_eq_true', not_and,
      Bool.not_eq_false] at hshown
    exact (Nat.lt_or_ge c.toNat 0x20).symm.imp_right hshown

/-- A unit that is no surrogate is a character of its own, whatever follows it. -/
theorem decode?_unit_cons {unit : UInt16} (hunit : unit < 0xd800) (contents : JsonText) :
    decode? (.unit unit :: contents) = (decode? contents).map (Char.ofNat unit.toNat :: ·) := by
  have hhigh : isHigh unit = false := by
    simp [isHigh, hunit]
  have hlow : isLow unit = false := by
    simp [isLow, UInt16.lt_trans hunit (by decide : (0xd800 : UInt16) < 0xdc00)]
  match contents with
  | [] => simp [decode?, hhigh, hlow]
  | .char c :: rest => simp [decode?, hhigh, hlow]
  | .unit next :: rest => simp [decode?, hhigh, hlow]

theorem decode?_encodeChar_cons (c : Char) (contents : JsonText) :
    decode? (encodeChar c :: contents) = (decode? contents).map (c :: ·) := by
  rw [encodeChar]
  split
  · rename_i hcontrol
    have hc : c.toNat < 0x20 := by
      simp at hcontrol
      exact hcontrol.1
    have hunit : (UInt16.ofNat c.toNat).toNat = c.toNat := by
      rw [UInt16.toNat_ofNat', Nat.mod_eq_of_lt (by omega)]
    rw [decode?_unit_cons, hunit, Char.ofNat_toNat]
    rw [UInt16.lt_iff_toNat_lt, hunit]
    exact Nat.lt_trans hc (by decide)
  · rfl

theorem decode?_encode (chars : List Char) : decode? (encode chars) = some chars := by
  induction chars with
  | nil => rfl
  | cons c chars ih =>
    have hrest : decode? (chars.map encodeChar) = some chars := ih
    rw [encode, List.map_cons, decode?_encodeChar_cons, hrest]
    rfl

end JsonText

namespace JsonValue

/-! ## Fields -/

@[simp] theorem uint64?_natural (value : UInt64) : (natural value.toNat).uint64? = some value := by
  simp [uint64?, natural, natural?, value.toNat_lt_size]

@[simp] theorem uint8?_natural (value : UInt8) : (natural value.toNat).uint8? = some value := by
  simp [uint8?, natural, natural?, value.toNat_lt_size]

@[simp] theorem chars?_string (text : String) : (string text).chars? = some text.toList :=
  JsonText.decode?_encode text.toList

theorem plain_natural (value : Nat) : (natural value).Plain :=
  .scalar trivial

theorem plain_string (text : String) : (string text).Plain :=
  .scalar (JsonText.plain_encode text.toList)

/-! ## Members -/

/-- The fields of a record as they are written. -/
def membersOf (fields : List (String × JsonValue)) : List (JsonText × JsonValue) :=
  fields.map fun (name, value) => (JsonText.encode name.toList, value)

/-- A member whose name is none of the given ones, however it is spelled. -/
def Unknown (names : List String) (member : JsonText × JsonValue) : Prop :=
  ∃ name, member.1.decode? = some name ∧ ∀ known ∈ names, name ≠ known.toList

/-- The members of a name, however it is spelled. -/
def named (members : List (JsonText × JsonValue)) (name : String) : List (JsonText × JsonValue) :=
  members.filter fun member => member.1.decode? = some name.toList

variable {members : List (JsonText × JsonValue)} {fields : List (String × JsonValue)}
  {names : List String} {name : String}

theorem plain_record (hfields : ∀ field ∈ fields, field.2.Plain) : (record fields).Plain := by
  refine .object ?_ ?_
  · intro member hmember
    rcases List.mem_map.1 hmember with ⟨field, _, rfl⟩
    exact JsonText.plain_encode field.1.toList
  · intro member hmember
    rcases List.mem_map.1 hmember with ⟨field, hfield, rfl⟩
    exact hfields field hfield

theorem Plain.perm {others : List (JsonText × JsonValue)}
    (hmembers : (JsonValue.object members).Plain) (hperm : others.Perm members) :
    (JsonValue.object others).Plain := by
  cases hmembers with
  | object hnames hvalues =>
    exact .object (fun member hmember => hnames member (hperm.subset hmember))
      fun member hmember => hvalues member (hperm.subset hmember)

theorem Plain.cons {member : JsonText × JsonValue} (hname : member.1.Plain)
    (hvalue : member.2.Plain) (hmembers : (JsonValue.object members).Plain) :
    (JsonValue.object (member :: members)).Plain := by
  cases hmembers with
  | object hnames hvalues =>
    exact .object (List.forall_mem_cons.2 ⟨hname, hnames⟩)
      (List.forall_mem_cons.2 ⟨hvalue, hvalues⟩)

theorem named_append (more : List (JsonText × JsonValue)) (name : String) :
    named (members ++ more) name = named members name ++ named more name :=
  List.filter_append ..

theorem named_perm {others : List (JsonText × JsonValue)} (hperm : members.Perm others)
    (name : String) : (named members name).Perm (named others name) :=
  hperm.filter _

/-- One more member of a name is counted, wherever it stands. -/
theorem length_named_insert {member : JsonText × JsonValue}
    (hmember : member.1.decode? = some name.toList) (before after : List (JsonText × JsonValue)) :
    (named (before ++ member :: after) name).length =
      (named (before ++ after) name).length + 1 := by
  rw [(named_perm List.perm_middle name).length_eq, named, List.filter_cons_of_pos (by simpa)]
  rfl

/-- A name is written so that it alone is read back. -/
theorem named_membersOf (fields : List (String × JsonValue)) (name : String) :
    named (membersOf fields) name = membersOf (fields.filter fun field => field.1 = name) := by
  simp only [named, membersOf, List.filter_map, Function.comp_def, JsonText.decode?_encode,
    Option.some.injEq, String.toList_inj]

theorem named_unknown (hunknown : ∀ member ∈ members, Unknown names member) (hname : name ∈ names) :
    named members name = [] := by
  refine List.filter_eq_nil_iff.2 ?_
  intro member hmember hsame
  rcases hunknown member hmember with ⟨other, hother, hdifferent⟩
  have hboth : some other = some name.toList := hother.symm.trans (of_decide_eq_true hsame)
  exact hdifferent name hname (Option.some.inj hboth)

/-- Where no two fields share a name, a name picks out its own field. -/
theorem filter_name_eq (hnames : (fields.map Prod.fst).Nodup) {field : String × JsonValue}
    (hfield : field ∈ fields) : fields.filter (fun other => other.1 = field.1) = [field] := by
  induction fields with
  | nil => simp at hfield
  | cons first fields ih =>
    rw [List.map_cons, List.nodup_cons] at hnames
    rcases hnames with ⟨hfirst, hrest⟩
    rcases List.mem_cons.1 hfield with rfl | hfield
    · have hnone : fields.filter (fun other => other.1 = field.1) = [] := by
        refine List.filter_eq_nil_iff.2 ?_
        intro other hother hsame
        exact hfirst (List.mem_map.2 ⟨other, hother, of_decide_eq_true hsame⟩)
      simp [hnone]
    · have hne : first.1 ≠ field.1 := by
        intro hsame
        exact hfirst (List.mem_map.2 ⟨field, hfield, hsame.symm⟩)
      simpa [hne] using ih hrest hfield

/-! ## Reading members by their names -/

theorem namedMembers?_cons (text : JsonText) (value : JsonValue) :
    namedMembers? ((text, value) :: members) = text.decode?.bind fun name =>
      (namedMembers? members).map ((name, value) :: ·) := by
  have hcons : namedMembers? ((text, value) :: members) =
      (text.decode?.map fun name => (name, value)).bind fun first =>
        (namedMembers? members).bind fun decoded => some (first :: decoded) := by
    rw [namedMembers?, List.mapM_cons]
    rfl
  rw [hcons]
  cases text.decode? with
  | none => rfl
  | some name =>
    cases namedMembers? members with
    | none => rfl
    | some decoded => rfl

/-- Members are decoded if all of their names can be. -/
theorem exists_namedMembers? (hmembers : ∀ member ∈ members, ∃ name, member.1.decode? = some name) :
    ∃ decoded, namedMembers? members = some decoded := by
  induction members with
  | nil => exact ⟨[], rfl⟩
  | cons member members ih =>
    rcases hmembers member List.mem_cons_self with ⟨name, hname⟩
    rcases ih fun other hother => hmembers other (List.mem_cons_of_mem member hother) with
      ⟨decoded, hdecoded⟩
    refine ⟨(name, member.2) :: decoded, ?_⟩
    rw [namedMembers?_cons, hname, hdecoded]
    rfl

/-- Decoding keeps the members of a name, in their order. -/
theorem filter_namedMembers? {decoded : List (List Char × JsonValue)}
    (hdecoded : namedMembers? members = some decoded) (name : String) :
    decoded.filter (fun member => member.1 = name.toList) =
      (named members name).map fun member => (name.toList, member.2) := by
  induction members generalizing decoded with
  | nil =>
    cases hdecoded
    rfl
  | cons member members ih =>
    rw [namedMembers?_cons, Option.bind_eq_some_iff] at hdecoded
    rcases hdecoded with ⟨other, hother, hmapped⟩
    rcases Option.map_eq_some_iff.1 hmapped with ⟨rest, hrest, rfl⟩
    have hmore := ih hrest
    by_cases hsame : other = name.toList
    · subst hsame
      simpa [named, hother] using hmore
    · simpa [named, hother, hsame] using hmore

/-- A name with one member has the value of that member. -/
theorem onlyMember?_of_named {decoded : List (List Char × JsonValue)}
    (hdecoded : namedMembers? members = some decoded) {member : JsonText × JsonValue}
    (honly : named members name = [member]) : onlyMember? decoded name = some member.2 := by
  rw [onlyMember?, filter_namedMembers? hdecoded, honly]
  rfl

/-- A name with no member has no value, and neither has one with several. -/
theorem onlyMember?_of_length_ne {decoded : List (List Char × JsonValue)}
    (hdecoded : namedMembers? members = some decoded) (hcount : (named members name).length ≠ 1) :
    onlyMember? decoded name = none := by
  rw [onlyMember?, filter_namedMembers? hdecoded]
  match hnamed : named members name with
  | [] => rfl
  | [_] => exact absurd (congrArg List.length hnamed) hcount
  | _ :: _ :: _ => rfl

theorem mapM_fst {α β : Type} {f : α → Option β} {pairs : List (α × β)}
    (hpairs : ∀ pair ∈ pairs, f pair.1 = some pair.2) :
    (pairs.map Prod.fst).mapM f = some (pairs.map Prod.snd) := by
  induction pairs with
  | nil => rfl
  | cons pair pairs ih =>
    have hpair := hpairs pair List.mem_cons_self
    have hrest := ih fun other hother => hpairs other (List.mem_cons_of_mem pair hother)
    simp [List.mapM_cons, hpair, hrest]

theorem mapM_of_none {α β : Type} {f : α → Option β} {items : List α} {item : α}
    (hitem : item ∈ items) (hnone : f item = none) : items.mapM f = none := by
  induction items with
  | nil => cases hitem
  | cons first items ih =>
    rw [List.mapM_cons]
    rcases List.mem_cons.1 hitem with rfl | hitem
    · simp [hnone]
    · simp [ih hitem]

/-- A record is not read from members that lack a field or repeat one. -/
theorem fields?_of_length_ne (hname : name ∈ names) (hcount : (named members name).length ≠ 1) :
    (object members).fields? names = none := by
  rw [fields?, Option.bind_eq_none_iff]
  intro decoded hdecoded
  exact mapM_of_none hname (onlyMember?_of_length_ne hdecoded hcount)

/-! ## Arrangements -/

/-- The documents of a record: an object of its members and of others with unknown names, in any
order, or the array of its values in declared order. -/
inductive Arranges (fields : List (String × JsonValue)) : JsonValue → Prop where
  | object {unknown members : List (JsonText × JsonValue)} :
      (∀ member ∈ unknown, Unknown (fields.map Prod.fst) member) →
      members.Perm (membersOf fields ++ unknown) → Arranges fields (.object members)
  | array : Arranges fields (.array (fields.map Prod.snd))

theorem arranges_record (fields : List (String × JsonValue)) : Arranges fields (record fields) := by
  refine @Arranges.object fields [] _ (by simp) ?_
  rw [List.append_nil]
  exact List.Perm.refl _

namespace Arranges

variable {tree : JsonValue}

/-- The order of the members does not matter. -/
theorem perm {others : List (JsonText × JsonValue)} (hmembers : Arranges fields (.object members))
    (hperm : others.Perm members) : Arranges fields (.object others) := by
  cases hmembers with
  | object hunknown hknown => exact .object hunknown (hperm.trans hknown)

/-- A member with an unknown name may be added, whatever its value. -/
theorem cons {member : JsonText × JsonValue} (hmember : Unknown (fields.map Prod.fst) member)
    (hmembers : Arranges fields (.object members)) :
    Arranges fields (.object (member :: members)) := by
  cases hmembers with
  | @object unknown _ hunknown hperm =>
    refine .object (List.forall_mem_cons.2 ⟨hmember, hunknown⟩) ?_
    calc List.Perm (member :: members) (member :: (membersOf fields ++ unknown)) :=
          hperm.cons member
      List.Perm _ (membersOf fields ++ member :: unknown) := List.perm_middle.symm

/-- The names of an object of a record can all be read. -/
theorem decodable (hmembers : Arranges fields (.object members)) :
    ∀ member ∈ members, ∃ name, member.1.decode? = some name := by
  cases hmembers with
  | @object unknown _ hunknown hperm =>
    intro member hmember
    rcases List.mem_append.1 (hperm.mem_iff.1 hmember) with hknown | hother
    · rcases List.mem_map.1 hknown with ⟨field, _, rfl⟩
      exact ⟨field.1.toList, JsonText.decode?_encode _⟩
    · rcases hunknown member hother with ⟨name, hname, _⟩
      exact ⟨name, hname⟩

/-- A field of a record has one member, and that has the value of the field. -/
theorem named_eq (hmembers : Arranges fields (.object members))
    (hnames : (fields.map Prod.fst).Nodup) {field : String × JsonValue} (hfield : field ∈ fields) :
    named members field.1 = [(JsonText.encode field.1.toList, field.2)] := by
  cases hmembers with
  | @object unknown _ hunknown hperm =>
    have hname : field.1 ∈ fields.map Prod.fst := List.mem_map.2 ⟨field, hfield, rfl⟩
    -- In whatever order they stand, the unknown members have other names, and so do other fields.
    have hsame := named_perm hperm field.1
    rw [named_append, named_membersOf, named_unknown hunknown hname,
      filter_name_eq hnames hfield] at hsame
    exact List.perm_singleton.1 hsame

/-- A record is read from each of its documents. -/
theorem fields?_eq (htree : Arranges fields tree) (hnames : (fields.map Prod.fst).Nodup) :
    tree.fields? (fields.map Prod.fst) = some (fields.map Prod.snd) := by
  cases htree with
  | array => simp [fields?]
  | @object unknown members hunknown hperm =>
    have hmembers : Arranges fields (.object members) := .object hunknown hperm
    rcases exists_namedMembers? hmembers.decodable with ⟨decoded, hdecoded⟩
    rw [fields?, hdecoded, Option.bind_some]
    refine mapM_fst ?_
    intro field hfield
    exact onlyMember?_of_named hdecoded (hmembers.named_eq hnames hfield)

theorem length_named (hmembers : Arranges fields (.object members))
    (hnames : (fields.map Prod.fst).Nodup) (hname : name ∈ fields.map Prod.fst) :
    (named members name).length = 1 := by
  rcases List.mem_map.1 hname with ⟨field, hfield, rfl⟩
  rw [hmembers.named_eq hnames hfield]
  rfl

end Arranges

/-- The faulty documents of a record: an object of it without the member of a field, or with one
more member for a field, of whatever value. -/
inductive Misarranges (fields : List (String × JsonValue)) : JsonValue → Prop where
  | missing {name : String} {member : JsonText × JsonValue}
      {before after : List (JsonText × JsonValue)} :
      name ∈ fields.map Prod.fst → member.1.decode? = some name.toList →
      Arranges fields (.object (before ++ member :: after)) →
      Misarranges fields (.object (before ++ after))
  | repeated {name : String} {member : JsonText × JsonValue}
      {before after : List (JsonText × JsonValue)} :
      name ∈ fields.map Prod.fst → member.1.decode? = some name.toList →
      Arranges fields (.object (before ++ after)) →
      Misarranges fields (.object (before ++ member :: after))

/-- A record is read from none of its faulty documents. -/
theorem Misarranges.fields?_eq_none {tree : JsonValue} (htree : Misarranges fields tree)
    (hnames : (fields.map Prod.fst).Nodup) : tree.fields? (fields.map Prod.fst) = none := by
  cases htree with
  -- Before its change the object has one member of the name, and then none or two.
  | missing hname hmember hmembers =>
    have honly := hmembers.length_named hnames hname
    rw [length_named_insert hmember] at honly
    exact fields?_of_length_ne hname (by omega)
  | repeated hname hmember hmembers =>
    have honly := hmembers.length_named hnames hname
    refine fields?_of_length_ne hname ?_
    rw [length_named_insert hmember, honly]
    decide

end JsonValue

end BeaconDuties
