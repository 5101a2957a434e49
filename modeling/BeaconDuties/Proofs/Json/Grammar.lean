import BeaconDuties.Proofs.Hex.Digits
import BeaconDuties.Proofs.Json.Words

/-!
# Grammar — the texts of a tree

A tree has many texts.  Blanks may stand around its words, each character of a string may be spelled
in several ways, and numbers have fractions and exponents.  The reader finds the tree in each of
these texts.  That a number is read to its end takes a look at what follows it: between two scalars
of a tree there is always a mark, so a number is followed by a blank, by a mark or by nothing.

* `TextPart.Spelling`, `JsonScalar.Spelling`, `JsonToken.Spelling` — how words are spelled;
* `JsonToken.Written`, `JsonValue.WrittenIn` — the texts of a list of words, and of a tree;
* `JsonToken.word?_of_spelling` — a word is scanned from each of its spellings;
* `JsonToken.scan?_of_written` — words are scanned from each of their texts;
* `JsonValue.parse?_of_writtenIn` — a tree is read from each of its texts.
-/

namespace BeaconDuties

/-! ## Strings -/

/-- The letters that may follow a backslash, and what they stand for. -/
def TextPart.letters : List (Char × Char) :=
  [('"', '"'), ('\\', '\\'), ('/', '/'), ('b', '\x08'), ('f', '\x0c'), ('n', '\n'), ('r', '\r'),
    ('t', '\t')]

/-- The spellings of a part of a string. -/
inductive TextPart.Spelling : TextPart → List Char → Prop where
  | plain {c : Char} : 0x20 ≤ c.toNat → c ≠ '"' → c ≠ '\\' → Spelling (.char c) [c]
  | letter {letter c : Char} : (letter, c) ∈ letters → Spelling (.char c) ['\\', letter]
  /-- A code unit by four hexadecimal digits of either case. -/
  | unit {a b c d : Char} {p q r s : Nat} :
      Hex.Denotes a p → Hex.Denotes b q → Hex.Denotes c r → Hex.Denotes d s →
      Spelling (.unit (UInt16.ofNat (4096 * p + 256 * q + 16 * r + s))) ['\\', 'u', a, b, c, d]

/-- The spellings of the contents of a string, part by part. -/
inductive JsonText.Spelling : JsonText → List Char → Prop where
  | nil : Spelling [] []
  | cons {part : TextPart} {contents : JsonText} {s more : List Char} :
      part.Spelling s → Spelling contents more → Spelling (part :: contents) (s ++ more)

/-! ## Scalars -/

namespace JsonScalar

/-- A point and digits, or nothing. -/
inductive Fraction : List Char → Prop where
  | none : Fraction []
  | digits {whole : List Char} : whole ≠ [] → (∀ c ∈ whole, c.isDigit) → Fraction ('.' :: whole)

/-- The mark of an exponent, at most one sign and digits, or nothing. -/
inductive Exponent : List Char → Prop where
  | none : Exponent []
  | digits {mark : Char} {sign whole : List Char} : mark = 'e' ∨ mark = 'E' →
      sign = [] ∨ sign = ['+'] ∨ sign = ['-'] → whole ≠ [] → (∀ c ∈ whole, c.isDigit) →
      Exponent (mark :: sign ++ whole)

/-- The spellings of a value without parts.  Whole numbers have no zeros in front. -/
inductive Spelling : JsonScalar → List Char → Prop where
  | null : Spelling .null ['n', 'u', 'l', 'l']
  | true : Spelling (.bool true) ['t', 'r', 'u', 'e']
  | false : Spelling (.bool false) ['f', 'a', 'l', 's', 'e']
  | natural (value : Nat) : Spelling (.natural value) (Nat.toDigits 10 value)
  | decimal (whole : Nat) {sign fraction exponent : List Char} : sign = [] ∨ sign = ['-'] →
      Fraction fraction → Exponent exponent → ¬ (sign = [] ∧ fraction = [] ∧ exponent = []) →
      Spelling (.decimal (sign ++ Nat.toDigits 10 whole ++ fraction ++ exponent))
        (sign ++ Nat.toDigits 10 whole ++ fraction ++ exponent)
  | text {contents : JsonText} {s : List Char} :
      contents.Spelling s → Spelling (.text contents) ('"' :: s ++ ['"'])

end JsonScalar

/-! ## Words and texts -/

namespace JsonToken

inductive Spelling : JsonToken → List Char → Prop where
  | openArray : Spelling .openArray ['[']
  | closeArray : Spelling .closeArray [']']
  | openObject : Spelling .openObject ['\x7b']
  | closeObject : Spelling .closeObject ['\x7d']
  | comma : Spelling .comma [',']
  | colon : Spelling .colon [':']
  | scalar {value : JsonScalar} {s : List Char} : value.Spelling s → Spelling (.scalar value) s

/-- Characters that mean nothing between words. -/
def Blanks (s : List Char) : Prop :=
  ∀ c ∈ s, c = ' ' ∨ c = '\t' ∨ c = '\n' ∨ c = '\r'

/-- The texts of a list of words: each word in one of its spellings, and blanks around them. -/
inductive Written : List JsonToken → List Char → Prop where
  | done {blanks : List Char} : Blanks blanks → Written [] blanks
  | word {blanks word rest : List Char} {token : JsonToken} {tokens : List JsonToken} :
      Blanks blanks → token.Spelling word → Written tokens rest →
      Written (token :: tokens) (blanks ++ word ++ rest)

end JsonToken

/-- The texts of a tree. -/
def JsonValue.WrittenIn (value : JsonValue) (text : String) : Prop :=
  JsonToken.Written value.tokens text.toList

namespace JsonToken

/-! ## Scanning strings -/

theorem unit?_of_denotes {a b c d : Char} {p q r s : Nat} (ha : Hex.Denotes a p)
    (hb : Hex.Denotes b q) (hc : Hex.Denotes c r) (hd : Hex.Denotes d s) :
    unit? a b c d = some (UInt16.ofNat (4096 * p + 256 * q + 16 * r + s)) := by
  rw [unit?, Hex.value?_eq_some_iff.2 ha, Hex.value?_eq_some_iff.2 hb, Hex.value?_eq_some_iff.2 hc,
    Hex.value?_eq_some_iff.2 hd]

/-- A part is scanned from each of its spellings, whatever follows it. -/
theorem text?_spelling_append {part : TextPart} {s : List Char} (hpart : part.Spelling s)
    (rest : List Char) :
    text? (s ++ rest) = (text? rest).map fun (contents, rest) => (part :: contents, rest) := by
  cases hpart with
  | @plain c hprintable hquote hbackslash =>
    rw [List.cons_append, List.nil_append, text?]
    · simp [Nat.not_lt.2 hprintable, hbackslash]
    · exact hquote
    · tauto
    · tauto
  | letter hletter =>
    simp only [TextPart.letters, List.mem_cons, Prod.mk.injEq, List.not_mem_nil, or_false]
      at hletter
    rcases hletter with ⟨rfl, rfl⟩ | ⟨rfl, rfl⟩ | ⟨rfl, rfl⟩ | ⟨rfl, rfl⟩ | ⟨rfl, rfl⟩ |
      ⟨rfl, rfl⟩ | ⟨rfl, rfl⟩ | ⟨rfl, rfl⟩
    all_goals rfl
  | unit ha hb hc hd =>
    simp [text?, unit?_of_denotes ha hb hc hd]

/-- The contents of a string are scanned up to the closing quote. -/
theorem text?_of_spelling {contents : JsonText} {s : List Char} (hcontents : contents.Spelling s)
    (rest : List Char) : text? (s ++ '"' :: rest) = some (contents, rest) := by
  induction hcontents with
  | nil => rfl
  | cons hpart _ ih =>
    rw [List.append_assoc, text?_spelling_append hpart, ih]
    rfl

/-! ## Scanning numbers -/

/-- No more digits follow. -/
def EndsDigits (rest : List Char) : Prop :=
  ∀ c ∈ rest.head?, ¬ c.isDigit

/-- No more of a number follows. -/
def EndsNumber (rest : List Char) : Prop :=
  ∀ c ∈ rest.head?, ¬ c.isDigit ∧ c ≠ '.' ∧ c ≠ 'e' ∧ c ≠ 'E'

variable {whole sign fraction exponent rest : List Char}

theorem EndsNumber.endsDigits (hrest : EndsNumber rest) : EndsDigits rest :=
  fun c hc => (hrest c hc).1

theorem digits_append (hwhole : ∀ c ∈ whole, c.isDigit) (hrest : EndsDigits rest) :
    digits (whole ++ rest) = whole := by
  rw [digits, List.takeWhile_append_of_pos hwhole]
  cases rest with
  | nil => simp
  | cons c rest => simp [hrest c rfl]

theorem afterDigits_append (hwhole : ∀ c ∈ whole, c.isDigit) (hrest : EndsDigits rest) :
    afterDigits (whole ++ rest) = rest := by
  rw [afterDigits, List.dropWhile_append_of_pos hwhole]
  cases rest with
  | nil => rfl
  | cons c rest => simp [hrest c rfl]

/-- An exponent starts with neither a digit nor a point. -/
theorem head?_exponent_append (hexponent : JsonScalar.Exponent exponent) (hrest : EndsNumber rest) :
    ∀ c ∈ (exponent ++ rest).head?, ¬ c.isDigit ∧ c ≠ '.' := by
  cases hexponent with
  | none => exact fun c hc => ⟨(hrest c hc).1, (hrest c hc).2.1⟩
  | digits hmark =>
    intro c hc
    cases hc
    rcases hmark with rfl | rfl
    all_goals decide

theorem endsDigits_fraction_append (hfraction : JsonScalar.Fraction fraction)
    (hexponent : JsonScalar.Exponent exponent) (hrest : EndsNumber rest) :
    EndsDigits (fraction ++ (exponent ++ rest)) := by
  cases hfraction with
  | none => exact fun c hc => (head?_exponent_append hexponent hrest c hc).1
  | digits =>
    intro c hc
    cases hc
    decide

theorem fraction?_append (hfraction : JsonScalar.Fraction fraction)
    (hrest : ∀ c ∈ rest.head?, ¬ c.isDigit ∧ c ≠ '.') :
    fraction? (fraction ++ rest) = some (fraction, rest) := by
  cases hfraction with
  | none =>
    cases rest with
    | nil => rfl
    | cons c rest => simp [fraction?, (hrest c rfl).2]
  | @digits whole hwhole hdigits =>
    have hends : EndsDigits rest := fun c hc => (hrest c hc).1
    simp [fraction?, digits_append hdigits hends, afterDigits_append hdigits hends, hwhole]

theorem exponentSign_append {sign whole : List Char}
    (hsign : sign = [] ∨ sign = ['+'] ∨ sign = ['-']) (hwhole : whole ≠ [])
    (hdigits : ∀ c ∈ whole, c.isDigit) (rest : List Char) :
    exponentSign (sign ++ (whole ++ rest)) = sign := by
  rcases hsign with rfl | rfl | rfl
  · cases whole with
    | nil => exact absurd rfl hwhole
    | cons c whole =>
      have hc := hdigits c List.mem_cons_self
      rw [List.nil_append, List.cons_append, exponentSign]
      · intro tail htail
        cases htail
        simp at hc
      · intro tail htail
        cases htail
        simp at hc
  · rfl
  · rfl

theorem exponent?_append (hexponent : JsonScalar.Exponent exponent) (hrest : EndsNumber rest) :
    exponent? (exponent ++ rest) = some (exponent, rest) := by
  cases hexponent with
  | none =>
    cases rest with
    | nil => rfl
    | cons c rest => simp [exponent?, (hrest c rfl).2.2]
  | @digits mark sign whole hmark hsign hwhole hdigits =>
    have hends := hrest.endsDigits
    have htaken := exponentSign_append hsign hwhole hdigits rest
    simp [exponent?, hmark, htaken, digits_append hdigits hends, afterDigits_append hdigits hends,
      hwhole]

/-- Only the numeral of zero starts with a zero. -/
theorem head?_toDigits_ne_zero {value : Nat} (hvalue : 0 < value) :
    (Nat.toDigits 10 value).head? ≠ some '0' := by
  induction value using Nat.strong_induction_on with
  | _ value ih =>
    rcases Nat.lt_or_ge value 10 with hsmall | hlarge
    · rw [Nat.toDigits_of_lt_base hsmall]
      interval_cases value <;> decide
    · -- The last digit is put behind those of the tenth part, which start the same.
      have hleading := ih (value / 10) (by omega) (by omega)
      rw [Nat.toDigits_of_base_le (by decide) hlarge,
        List.head?_append_of_ne_nil _ Nat.toDigits_ne_nil]
      exact hleading

theorem isWhole_toDigits (value : Nat) : isWhole (Nat.toDigits 10 value) := by
  rcases Nat.lt_or_ge value 10 with hsmall | hlarge
  · rw [Nat.toDigits_of_lt_base hsmall]
    rfl
  · have hpositive : 0 < value := by omega
    have hleading := head?_toDigits_ne_zero hpositive
    cases hdigits : Nat.toDigits 10 value with
    | nil => exact absurd hdigits Nat.toDigits_ne_nil
    | cons first more =>
      have hfirst : first ≠ '0' := by simpa [hdigits] using hleading
      cases more with
      | nil => rfl
      | cons second more => simp [isWhole, hfirst]

theorem isDigit_of_mem_toDigits {value : Nat} {c : Char} (hc : c ∈ Nat.toDigits 10 value) :
    c.isDigit :=
  Nat.isDigit_of_mem_toDigits (by decide) (by decide) hc

/-- A number past its sign is scanned in its parts. -/
theorem unsigned?_append (sign : List Char) (value : Nat) (hfraction : JsonScalar.Fraction fraction)
    (hexponent : JsonScalar.Exponent exponent) (hrest : EndsNumber rest) :
    unsigned? sign (Nat.toDigits 10 value ++ (fraction ++ (exponent ++ rest))) =
      some (ofParts sign (Nat.toDigits 10 value) fraction exponent, rest) := by
  have hdigits : ∀ c ∈ Nat.toDigits 10 value, c.isDigit := fun _ => isDigit_of_mem_toDigits
  have hends := endsDigits_fraction_append hfraction hexponent hrest
  rw [unsigned?, digits_append hdigits hends, afterDigits_append hdigits hends,
    if_pos (isWhole_toDigits value),
    fraction?_append hfraction (head?_exponent_append hexponent hrest)]
  simp [exponent?_append hexponent hrest]

/-! ## Scanning words -/

/-- Punctuation is no part of a number. -/
theorem endsNumber_mark {c : Char} {mark : JsonToken} (hmark : mark? c = some mark)
    (rest : List Char) : EndsNumber (c :: rest) := by
  intro other hother
  cases hother
  revert hmark
  fun_cases mark? c
  all_goals simp

/-- A word that starts with a digit is a number. -/
theorem word?_of_isDigit {c : Char} (hc : c.isDigit) (s : List Char) :
    word? (c :: s) = (unsigned? [] (c :: s)).map fun taken => (scalar taken.1, taken.2) := by
  have hmark : mark? c = none := by
    cases hmark : mark? c with
    | none => rfl
    | some mark => exact absurd hc (endsNumber_mark hmark s c rfl).1
  have hnumber : number? (c :: s) = unsigned? [] (c :: s) := by
    rw [number?]
    rintro rest ⟨rfl, _⟩
    simp at hc
  rw [word?, hmark, hnumber]
  -- No other word starts with a digit.
  · rintro rest rfl _
    simp at hc
  · rintro rest rfl _
    simp at hc
  · rintro rest rfl _
    simp at hc
  · rintro rfl
    simp at hc

theorem word?_number (hsign : sign = [] ∨ sign = ['-']) (value : Nat)
    (hfraction : JsonScalar.Fraction fraction) (hexponent : JsonScalar.Exponent exponent)
    (hrest : EndsNumber rest) :
    word? (sign ++ (Nat.toDigits 10 value ++ (fraction ++ (exponent ++ rest)))) =
      some (scalar (ofParts sign (Nat.toDigits 10 value) fraction exponent), rest) := by
  have hnumber := unsigned?_append sign value hfraction hexponent hrest
  rcases hsign with rfl | rfl
  · cases hdigits : Nat.toDigits 10 value with
    | nil => exact absurd hdigits Nat.toDigits_ne_nil
    | cons c more =>
      have hc : c.isDigit := isDigit_of_mem_toDigits (hdigits ▸ List.mem_cons_self)
      rw [hdigits] at hnumber
      rw [List.nil_append, List.cons_append, word?_of_isDigit hc, ← List.cons_append, hnumber]
      rfl
  · have hminus : ∀ s, word? ('-' :: s) =
        (unsigned? ['-'] s).map fun taken => (scalar taken.1, taken.2) := fun _ => rfl
    rw [List.cons_append, List.nil_append, hminus, hnumber]
    rfl

/-- A scalar is scanned from each of its spellings, in front of anything that adds nothing to a
number. -/
theorem word?_scalar_of_spelling {value : JsonScalar} {s : List Char} (hvalue : value.Spelling s)
    (hrest : EndsNumber rest) : word? (s ++ rest) = some (scalar value, rest) := by
  cases hvalue with
  | null => rfl
  | true => rfl
  | false => rfl
  | natural value =>
    have hnumber := word?_number (.inl rfl) value .none .none hrest
    simpa [ofParts, Nat.ofDigitChars_ten_toDigits] using hnumber
  | decimal value hsign hfraction hexponent hparts =>
    have hnumber := word?_number hsign value hfraction hexponent hrest
    have hdecimal : ofParts _ (Nat.toDigits 10 value) _ _ = .decimal _ :=
      if_neg (by simpa [and_assoc] using hparts)
    rw [hdecimal] at hnumber
    simpa only [List.append_assoc] using hnumber
  | text hcontents =>
    have htext := text?_of_spelling hcontents rest
    simp [word?, htext]

def isScalar : JsonToken → Bool
  | .scalar _ => true
  | _ => false

/-- A word is scanned from each of its spellings; behind a scalar nothing may follow that adds to a
number. -/
theorem word?_of_spelling {token : JsonToken} {word : List Char} (hword : token.Spelling word)
    (hrest : token.isScalar → EndsNumber rest) : word? (word ++ rest) = some (token, rest) := by
  cases hword with
  | openArray | closeArray | openObject | closeObject | comma | colon => rfl
  | scalar hvalue => exact word?_scalar_of_spelling hvalue (hrest rfl)

/-! ## Scanning texts -/

theorem isBlank_iff {c : Char} : isBlank c ↔ c = ' ' ∨ c = '\t' ∨ c = '\n' ∨ c = '\r' := by
  simp [isBlank, or_assoc]

theorem word?_of_isBlank {c : Char} (hc : isBlank c) (s : List Char) : word? (c :: s) = none := by
  rcases isBlank_iff.1 hc with rfl | rfl | rfl | rfl
  all_goals rfl

theorem endsNumber_blanks {blanks rest : List Char} (hblanks : Blanks blanks)
    (hrest : EndsNumber rest) : EndsNumber (blanks ++ rest) := by
  cases blanks with
  | nil => exact hrest
  | cons c blanks =>
    intro other hother
    cases hother
    rcases hblanks c List.mem_cons_self with rfl | rfl | rfl | rfl
    all_goals decide

theorem scan?_blanks {blanks : List Char} (hblanks : Blanks blanks) (rest : List Char) :
    scan? (blanks ++ rest) = scan? rest := by
  induction blanks with
  | nil => rfl
  | cons c blanks ih =>
    have hc : isBlank c := isBlank_iff.2 (hblanks c List.mem_cons_self)
    rw [List.cons_append, scan?, if_pos hc]
    exact ih fun other hother => hblanks other (List.mem_cons_of_mem c hother)

theorem scan?_of_word? {s rest : List Char} {token : JsonToken}
    (hword : word? s = some (token, rest)) : scan? s = (scan? rest).map (token :: ·) := by
  cases s with
  | nil => simp [word?] at hword
  | cons c s =>
    have hblank : ¬ isBlank c := fun hc => by simp [word?_of_isBlank hc] at hword
    rw [scan?, if_neg hblank]
    split
    · simp_all
    · simp_all

/-- No two scalars are neighbours. -/
def Apart (tokens : List JsonToken) : Prop :=
  tokens.IsChain fun first second => ¬ (first.isScalar ∧ second.isScalar)

/-- What is not a scalar ends a number in front of it. -/
theorem endsNumber_of_written {tokens : List JsonToken} {s : List Char} (hs : Written tokens s)
    (hmark : ∀ token ∈ tokens.head?, ¬ token.isScalar) : EndsNumber s := by
  cases hs with
  | done hblanks =>
    have hnothing : EndsNumber [] := by simp [EndsNumber]
    have hends := endsNumber_blanks hblanks hnothing
    rwa [List.append_nil] at hends
  | word hblanks hword =>
    rw [List.append_assoc]
    apply endsNumber_blanks hblanks
    -- The first word is a mark, and a mark is one character.
    cases hword with
    | openArray => exact endsNumber_mark (c := '[') rfl _
    | closeArray => exact endsNumber_mark (c := ']') rfl _
    | openObject => exact endsNumber_mark (c := '\x7b') rfl _
    | closeObject => exact endsNumber_mark (c := '\x7d') rfl _
    | comma => exact endsNumber_mark (c := ',') rfl _
    | colon => exact endsNumber_mark (c := ':') rfl _
    | scalar => exact absurd rfl (hmark _ rfl)

/-- Words are scanned from each of their texts. -/
theorem scan?_of_written {tokens : List JsonToken} {s : List Char} (hs : Written tokens s)
    (hapart : Apart tokens) : scan? s = some tokens := by
  induction hs with
  | done hblanks =>
    have hdone := scan?_blanks hblanks []
    rw [List.append_nil] at hdone
    rw [hdone, scan?]
  | @word blanks word rest token tokens hblanks hword hrest ih =>
    rcases List.isChain_cons.1 hapart with ⟨hnext, hmore⟩
    -- Behind a scalar comes no other one, so what is left cannot lengthen a number.
    have hends : token.isScalar → EndsNumber rest := fun hscalar =>
      endsNumber_of_written hrest fun next hnext' hscalar' => hnext next hnext' ⟨hscalar, hscalar'⟩
    rw [List.append_assoc, scan?_blanks hblanks, scan?_of_word? (word?_of_spelling hword hends),
      ih hmore]
    rfl

/-- In front of words that start with a mark, or of none, anything may be put that keeps scalars
apart. -/
def Follows (tokens : List JsonToken) : Prop :=
  Apart tokens ∧ ∀ token ∈ tokens.head?, ¬ token.isScalar

theorem Follows.mark (mark : JsonToken) (hmark : ¬ mark.isScalar) {tokens : List JsonToken}
    (htokens : Apart tokens) : Follows (mark :: tokens) := by
  refine ⟨List.isChain_cons.2 ⟨fun _ _ hboth => hmark hboth.1, htokens⟩, ?_⟩
  rintro _ ⟨⟩
  exact hmark

theorem Follows.scalar {tokens : List JsonToken} (htokens : Follows tokens) (value : JsonScalar) :
    Apart (.scalar value :: tokens) :=
  List.isChain_cons.2 ⟨fun next hnext hboth => htokens.2 next hnext hboth.2, htokens.1⟩

/-- The name of a member is apart from its value. -/
theorem Apart.member {tokens : List JsonToken} (htokens : Apart tokens) (name : JsonText) :
    Apart (.scalar (.text name) :: colon :: tokens) :=
  (Follows.mark colon (by decide) htokens).scalar (.text name)

end JsonToken

/-! ## Reading trees -/

namespace JsonValue

open JsonToken

mutual

/-- The words of a tree keep scalars apart. -/
theorem apart_tokens (value : JsonValue) {more : List JsonToken} (hmore : Follows more) :
    Apart (value.tokens ++ more) := by
  match value with
  | .scalar value => exact hmore.scalar value
  | .array [] =>
    exact (Follows.mark openArray (by decide) (Follows.mark closeArray (by decide) hmore.1).1).1
  | .array (first :: rest) =>
    have hclose : Follows (closeArray :: more) := .mark closeArray (by decide) hmore.1
    have hfirst := apart_tokens first (follows_itemTokens rest hclose)
    simpa [tokens] using (Follows.mark openArray (by decide) hfirst).1
  | .object [] =>
    exact (Follows.mark openObject (by decide) (Follows.mark closeObject (by decide) hmore.1).1).1
  | .object ((name, first) :: rest) =>
    have hclose : Follows (closeObject :: more) := .mark closeObject (by decide) hmore.1
    have hfirst := apart_tokens first (follows_memberTokens rest hclose)
    simpa [tokens] using (Follows.mark openObject (by decide) (hfirst.member name)).1

theorem follows_itemTokens (items : List JsonValue) {more : List JsonToken}
    (hmore : Follows more) : Follows (itemTokens items ++ more) := by
  match items with
  | [] => exact hmore
  | item :: rest =>
    have hitem := apart_tokens item (follows_itemTokens rest hmore)
    simpa [itemTokens] using Follows.mark comma (by decide) hitem

theorem follows_memberTokens (members : List (JsonText × JsonValue)) {more : List JsonToken}
    (hmore : Follows more) : Follows (memberTokens members ++ more) := by
  match members with
  | [] => exact hmore
  | (name, value) :: rest =>
    have hvalue := apart_tokens value (follows_memberTokens rest hmore)
    simpa [memberTokens] using Follows.mark comma (by decide) (hvalue.member name)

end

/-- A tree is read from each of its texts. -/
theorem parse?_of_writtenIn {value : JsonValue} {text : String} (htext : value.WrittenIn text) :
    parse? text = some value := by
  have hapart : Apart value.tokens := by
    have hend : Follows [] := ⟨.nil, by simp⟩
    simpa using value.apart_tokens hend
  rw [parse?, scan?_of_written htext hapart, Option.bind_some, ofTokens?_tokens]

end JsonValue

end BeaconDuties
