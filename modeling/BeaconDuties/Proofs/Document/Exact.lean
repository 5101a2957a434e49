import BeaconDuties.Proofs.Document.Record

/-!
# Exact — a byte string is read from its own numbers only

A byte string of a given width is written as an array of that many numbers below 256.  Nothing else
is read as one: a shorter array is not padded, a longer one is not cut off, and a number out of
range is not reduced.  Where a document gives such a value for a field of a record, by whatever
spelling of the name and among whatever other members, the record is not read from it.

* `JsonValue.bytes?_eq_some_iff` — the only document of a byte string;
* `JsonValue.Misfits` — the arrays that are no byte string of a width;
* `JsonValue.Gives` — the values that a document gives for a field;
* `JsonValue.Gives.not_misfits` — what a document gives for a field of bytes that is read from it.
-/

namespace BeaconDuties

namespace JsonValue

/-! ## Numbers -/

/-- If each value is read from one item only, a list is read from the items of its values only. -/
theorem mapM_eq_some_iff {α β : Type} {f : α → Option β} {g : β → α}
    (hexact : ∀ {item value}, f item = some value ↔ item = g value) {items : List α}
    {values : List β} : items.mapM f = some values ↔ items = values.map g := by
  induction items generalizing values with
  | nil => cases values <;> simp
  | cons item items ih =>
    cases values with
    | nil => simp [List.mapM_cons, Option.bind_eq_some_iff]
    | cons value values => simp [List.mapM_cons, Option.bind_eq_some_iff, hexact, ih]

variable {value tree : JsonValue} {n width : Nat}

theorem natural?_eq_some_iff {number : Nat} :
    value.natural? = some number ↔ value = natural number := by
  constructor
  · intro hfound
    unfold natural? at hfound
    split at hfound
    · cases hfound
      rfl
    · cases hfound
  · rintro rfl
    rfl

theorem uint8?_eq_some_iff {byte : UInt8} :
    value.uint8? = some byte ↔ value = natural byte.toNat := by
  constructor
  · intro hfound
    rcases Option.bind_eq_some_iff.1 hfound with ⟨number, hnumber, hfits⟩
    split_ifs at hfits with hsmall
    cases hfits
    rw [natural?_eq_some_iff.1 hnumber, UInt8.toNat_ofNat_of_lt' hsmall]
  · rintro rfl
    exact uint8?_natural byte

/-! ## Byte strings -/

/-- A byte string is read from the array of its numbers, and from no other document. -/
theorem bytes?_eq_some_iff {bytes : Bytes n} :
    value.bytes? n = some bytes ↔ value = ofBytes bytes := by
  have hitems : ∀ {items : List JsonValue} {read : List UInt8}, items.mapM uint8? = some read ↔
      items = read.map fun byte => natural byte.toNat := mapM_eq_some_iff uint8?_eq_some_iff
  constructor
  · intro hfound
    unfold bytes? at hfound
    split at hfound
    · rcases Option.bind_eq_some_iff.1 hfound with ⟨read, hread, hbytes⟩
      rw [hitems.1 hread, Bytes.ofArray?_toArray_eq_some_iff.1 hbytes, ofBytes]
    · cases hfound
  · rintro rfl
    rw [ofBytes, bytes?, hitems.2 rfl, Option.bind_some]
    exact Bytes.ofArray?_toArray_eq_some_iff.2 rfl

@[simp] theorem bytes?_ofBytes (bytes : Bytes n) : (ofBytes bytes).bytes? n = some bytes :=
  bytes?_eq_some_iff.2 rfl

/-- An array that is no byte string of a width: it has fewer or more items, or one of them is no
number below 256. -/
def Misfits (width : Nat) (value : JsonValue) : Prop :=
  ∃ items, value = .array items ∧
    (items.length ≠ width ∨ ∃ item ∈ items, ∀ number < 256, item ≠ natural number)

theorem not_misfits_ofBytes (bytes : Bytes width) : ¬ Misfits width (ofBytes bytes) := by
  rintro ⟨items, hitems, hlength | ⟨item, hitem, hnumber⟩⟩
  · cases hitems
    simp at hlength
  · cases hitems
    rcases List.mem_map.1 hitem with ⟨byte, _, rfl⟩
    exact hnumber byte.toNat byte.toNat_lt rfl

theorem plain_ofBytes (bytes : Bytes n) : (ofBytes bytes).Plain := by
  refine .array ?_
  intro item hitem
  rcases List.mem_map.1 hitem with ⟨byte, _, rfl⟩
  exact plain_natural byte.toNat

/-! ## Values given for a field -/

/-- The values that a document gives for a field of a record: those of the members of its name,
however that is spelled, or the item in its place. -/
inductive Gives (names : List String) (name : String) : JsonValue → JsonValue → Prop where
  | member {members : List (JsonText × JsonValue)} {member : JsonText × JsonValue} :
      member ∈ members → member.1.decode? = some name.toList →
      Gives names name (.object members) member.2
  | item {items : List JsonValue} {value : JsonValue} :
      (name, value) ∈ names.zip items → Gives names name (.array items) value

variable {fields : List (String × JsonValue)} {name : String}

theorem mem_zip_of_mapM {α β : Type} {f : α → Option β} {items : List α} {values : List β}
    (hvalues : items.mapM f = some values) {item : α} (hitem : item ∈ items) :
    ∃ value, f item = some value ∧ (item, value) ∈ items.zip values := by
  induction items generalizing values with
  | nil => cases hitem
  | cons first items ih =>
    rw [List.mapM_cons] at hvalues
    rcases Option.bind_eq_some_iff.1 hvalues with ⟨value, hvalue, hrest⟩
    rcases Option.bind_eq_some_iff.1 hrest with ⟨others, hothers, hsame⟩
    cases hsame
    rcases List.mem_cons.1 hitem with rfl | hitem
    · exact ⟨value, hvalue, List.mem_cons_self⟩
    · rcases ih hothers hitem with ⟨other, hother, hmem⟩
      exact ⟨other, hother, List.mem_cons_of_mem _ hmem⟩

/-- If a record is read from a document, what the document gives for a field is what is read. -/
theorem Gives.mem_fields (hgives : Gives (fields.map Prod.fst) name tree value)
    (hname : name ∈ fields.map Prod.fst)
    (hread : tree.fields? (fields.map Prod.fst) = some (fields.map Prod.snd)) :
    (name, value) ∈ fields := by
  have hfields : fields = (fields.map Prod.fst).zip (fields.map Prod.snd) :=
    List.zip_of_prod rfl rfl
  rw [hfields]
  cases hgives with
  | @member members member hmember hdecoded =>
    rcases Option.bind_eq_some_iff.1 hread with ⟨decoded, hmembers, hvalues⟩
    rcases mem_zip_of_mapM hvalues hname with ⟨only, honly, hmem⟩
    -- The member is among those of the name, of which there is just one.
    have hlisted : (name.toList, member.2) ∈
        decoded.filter fun other => other.1 = name.toList := by
      rw [filter_namedMembers? hmembers]
      exact List.mem_map.2 ⟨member, List.mem_filter.2 ⟨hmember, by simpa using hdecoded⟩, rfl⟩
    rw [onlyMember?] at honly
    split at honly
    · rename_i hfilter
      rw [hfilter, List.mem_singleton] at hlisted
      cases honly
      cases hlisted
      exact hmem
    · cases honly
  | item hitem =>
    rw [fields?] at hread
    split_ifs at hread
    cases hread
    exact hitem

/-- A field that is read as a byte string was given no other array. -/
theorem Gives.not_misfits (hgives : Gives (fields.map Prod.fst) name tree value)
    (hnames : (fields.map Prod.fst).Nodup)
    (hread : tree.fields? (fields.map Prod.fst) = some (fields.map Prod.snd))
    {bytes : Bytes width} (hfield : (name, ofBytes bytes) ∈ fields) : ¬ Misfits width value := by
  have hgiven : (name, value) ∈ fields :=
    hgives.mem_fields (List.mem_map.2 ⟨_, hfield, rfl⟩) hread
  have hsame : value = ofBytes bytes :=
    congrArg Prod.snd (List.inj_on_of_nodup_map hnames hgiven hfield rfl)
  rw [hsame]
  exact not_misfits_ofBytes bytes

end JsonValue

end BeaconDuties
