import BeaconDuties.Hex
import BeaconDuties.Json.Basic

/-!
# Token — the words of a document

A text is cut into punctuation and scalars; blanks, tabs and line ends between them are dropped.
Numbers and strings are as long as they can be.

* `JsonToken` — a word;
* `JsonToken.text?` — the contents of a string, past its opening quote;
* `JsonToken.number?` — a number, from its first character;
* `JsonToken.scan?` — the words of a text.
-/

namespace BeaconDuties

inductive JsonToken where
  | openArray
  | closeArray
  | openObject
  | closeObject
  | comma
  | colon
  | scalar (value : JsonScalar)
  deriving DecidableEq, Repr

namespace JsonToken

/-! ## Strings -/

def letterEscape? : Char → Option Char
  | '"' => some '"'
  | '\\' => some '\\'
  | '/' => some '/'
  | 'b' => some '\x08'
  | 'f' => some '\x0c'
  | 'n' => some '\n'
  | 'r' => some '\r'
  | 't' => some '\t'
  | _ => none

def unit? (a b c d : Char) : Option UInt16 :=
  match Hex.value? a, Hex.value? b, Hex.value? c, Hex.value? d with
  | some a, some b, some c, some d => some (UInt16.ofNat (4096 * a + 256 * b + 16 * c + d))
  | _, _, _, _ => none

/-- The contents of a string up to its closing quote, and what follows the quote. Control characters
must be escaped. -/
def text? : List Char → Option (JsonText × List Char)
  | [] => none
  | '"' :: rest => some ([], rest)
  | '\\' :: 'u' :: a :: b :: c :: d :: rest =>
    match unit? a b c d with
    | some unit => (text? rest).map fun (contents, rest) => (.unit unit :: contents, rest)
    | none => none
  | '\\' :: letter :: rest =>
    match letterEscape? letter with
    | some c => (text? rest).map fun (contents, rest) => (.char c :: contents, rest)
    | none => none
  | c :: rest =>
    if c.toNat < 0x20 || c = '\\' then none
    else (text? rest).map fun (contents, rest) => (.char c :: contents, rest)

theorem length_lt_of_text? {s rest : List Char} {contents : JsonText}
    (found : text? s = some (contents, rest)) : rest.length < s.length := by
  fun_induction text? s generalizing contents with
  | case1 => simp at found
  | case2 => simp_all
  -- A part of the contents was taken before the rest was read.
  | case3 a b c d r unit _ ih | case5 letter r _ c _ ih | case8 c r _ _ _ _ ih =>
    obtain ⟨⟨more, last⟩, inner, same⟩ := Option.map_eq_some_iff.1 found
    cases same
    have innerShorter := ih inner
    simp only [List.length_cons]
    omega
  | case4 | case6 | case7 => simp at found

/-! ## Numbers -/

def digits (s : List Char) : List Char :=
  s.takeWhile Char.isDigit

def afterDigits (s : List Char) : List Char :=
  s.dropWhile Char.isDigit

/-- A point and at least one digit, if the text starts with a point; what is taken and what
follows. -/
def fraction? : List Char → Option (List Char × List Char)
  | '.' :: rest =>
    if (digits rest).isEmpty then none else some ('.' :: digits rest, afterDigits rest)
  | s => some ([], s)

/-- The sign in front of an exponent's digits, if there is one. -/
def exponentSign : List Char → List Char
  | '+' :: _ => ['+']
  | '-' :: _ => ['-']
  | _ => []

/-- The mark of an exponent, a sign or none, and at least one digit, if the text starts with the
mark; what is taken and what follows. -/
def exponent? : List Char → Option (List Char × List Char)
  | [] => some ([], [])
  | c :: rest =>
    if c = 'e' ∨ c = 'E' then
      let sign := exponentSign rest
      let rest := rest.drop sign.length
      if (digits rest).isEmpty then none else some (c :: sign ++ digits rest, afterDigits rest)
    else some ([], c :: rest)

/-- Whether digits spell a whole number: at least one, and no zero in front of others. -/
def isWhole : List Char → Bool
  | [] => false
  | [_] => true
  | first :: _ => first ≠ '0'

/-- The value of a number in its parts: a plain natural number, unless there is a sign, a fraction
or an exponent. -/
def ofParts (sign whole fraction exponent : List Char) : JsonScalar :=
  if sign.isEmpty && fraction.isEmpty && exponent.isEmpty then
    .natural (Nat.ofDigitChars 10 whole 0)
  else .decimal (sign ++ whole ++ fraction ++ exponent)

/-- A number past its sign, and what follows it. -/
def unsigned? (sign s : List Char) : Option (JsonScalar × List Char) :=
  if isWhole (digits s) then
    (fraction? (afterDigits s)).bind fun fraction =>
      (exponent? fraction.2).map fun exponent =>
        (ofParts sign (digits s) fraction.1 exponent.1, exponent.2)
  else none

/-- A number from its first character, and what follows it. -/
def number? : List Char → Option (JsonScalar × List Char)
  | '-' :: rest => unsigned? ['-'] rest
  | s => unsigned? [] s

theorem length_afterDigits_le (s : List Char) : (afterDigits s).length ≤ s.length :=
  (List.dropWhile_sublist _).length_le

theorem length_le_of_fraction? {s : List Char} {taken : List Char × List Char}
    (found : fraction? s = some taken) : taken.2.length ≤ s.length := by
  unfold fraction? at found
  split at found
  · rename_i rest
    split at found
    · simp at found
    · have restShorter := length_afterDigits_le rest
      cases found
      simp only [List.length_cons]
      omega
  · cases found
    exact Nat.le_refl _

theorem length_le_of_exponent? {s : List Char} {taken : List Char × List Char}
    (found : exponent? s = some taken) : taken.2.length ≤ s.length := by
  unfold exponent? at found
  split at found
  · cases found
    exact Nat.le_refl _
  · rename_i c rest
    split at found
    · dsimp only at found
      split at found
      · simp at found
      · have restShorter := length_afterDigits_le (rest.drop (exponentSign rest).length)
        cases found
        simp only [List.length_drop, List.length_cons] at restShorter ⊢
        omega
    · cases found
      exact Nat.le_refl _

theorem length_lt_of_unsigned? {sign s : List Char} {taken : JsonScalar × List Char}
    (found : unsigned? sign s = some taken) : taken.2.length < s.length := by
  unfold unsigned? at found
  split at found
  · rename_i whole
    obtain ⟨fraction, fractionFound, found⟩ := Option.bind_eq_some_iff.1 found
    obtain ⟨exponent, exponentFound, same⟩ := Option.map_eq_some_iff.1 found
    cases same
    -- A fraction and an exponent may be empty, so the whole digits make the text shorter.
    have first := length_le_of_fraction? fractionFound
    have second := length_le_of_exponent? exponentFound
    have parts : (digits s).length + (afterDigits s).length = s.length := by
      rw [digits, afterDigits, ← List.length_append, List.takeWhile_append_dropWhile]
    have nonempty : 0 < (digits s).length := by
      cases taken : digits s with
      | nil => simp [taken, isWhole] at whole
      | cons => simp
    show exponent.2.length < s.length
    omega
  · simp at found

theorem length_lt_of_number? {s : List Char} {taken : JsonScalar × List Char}
    (found : number? s = some taken) : taken.2.length < s.length := by
  unfold number? at found
  split at found
  · exact Nat.lt_succ_of_lt (length_lt_of_unsigned? found)
  · exact length_lt_of_unsigned? found

/-! ## Texts -/

/-- Whether a character may stand between words without meaning anything. -/
def isBlank (c : Char) : Bool :=
  c = ' ' || c = '\t' || c = '\n' || c = '\r'

/-- The word of a punctuation mark. -/
def mark? : Char → Option JsonToken
  | '[' => some openArray
  | ']' => some closeArray
  | '\x7b' => some openObject
  | '\x7d' => some closeObject
  | ',' => some comma
  | ':' => some colon
  | _ => none

/-- The word at the start of a text that starts with no blank, and what follows it. -/
def word? : List Char → Option (JsonToken × List Char)
  | [] => none
  | 'n' :: 'u' :: 'l' :: 'l' :: rest => some (scalar .null, rest)
  | 't' :: 'r' :: 'u' :: 'e' :: rest => some (scalar (.bool true), rest)
  | 'f' :: 'a' :: 'l' :: 's' :: 'e' :: rest => some (scalar (.bool false), rest)
  | '"' :: rest => (text? rest).map fun taken => (scalar (.text taken.1), taken.2)
  | c :: rest =>
    match mark? c with
    | some mark => some (mark, rest)
    | none => (number? (c :: rest)).map fun taken => (scalar taken.1, taken.2)

theorem length_lt_of_word? {s : List Char} {taken : JsonToken × List Char}
    (found : word? s = some taken) : taken.2.length < s.length := by
  unfold word? at found
  split at found
  · simp at found
  · cases found
    simp
    omega
  · cases found
    simp
    omega
  · cases found
    simp
    omega
  · obtain ⟨text, inner, same⟩ := Option.map_eq_some_iff.1 found
    cases same
    exact Nat.lt_succ_of_lt (length_lt_of_text? inner)
  · split at found
    · cases found
      simp
    · obtain ⟨number, inner, same⟩ := Option.map_eq_some_iff.1 found
      cases same
      exact length_lt_of_number? inner

/-- The words of a text, if it consists of words and blanks only. -/
def scan? : (s : List Char) → Option (List JsonToken)
  | [] => some []
  | c :: rest =>
    if isBlank c then scan? rest
    else
      match _found : word? (c :: rest) with
      | some taken => (scan? taken.2).map (taken.1 :: ·)
      | none => none
termination_by s => s.length
decreasing_by
  · simp
  · exact length_lt_of_word? _found

end JsonToken

end BeaconDuties
