/-!
# Json — documents as trees

A document is read into a tree that keeps what a reader may still need to decide: members in order
and with repeated names, strings whose surrogate escapes are not yet paired, and numbers that are
not plain natural ones only as their spelling.

* `TextPart`, `JsonText` — the contents of a string;
* `JsonText.decode?`, `JsonText.encode` — between contents and characters;
* `JsonScalar`, `JsonValue` — the tree.
-/

namespace BeaconDuties

/-! ## Strings -/

/-- One part of the contents of a string. -/
inductive TextPart where
  /-- A character that stands for itself or has a one-letter escape. -/
  | char (c : Char)
  /-- A UTF-16 code unit, escaped by its four hexadecimal digits. -/
  | unit (value : UInt16)
  deriving DecidableEq, Repr

/-- The contents of a string, part by part. -/
abbrev JsonText := List TextPart

namespace JsonText

def isHigh (unit : UInt16) : Bool :=
  0xd800 ≤ unit && unit < 0xdc00

def isLow (unit : UInt16) : Bool :=
  0xdc00 ≤ unit && unit < 0xe000

def paired (high low : UInt16) : Char :=
  Char.ofNat (0x10000 + 0x400 * (high.toNat - 0xd800) + (low.toNat - 0xdc00))

/-- The characters of a string; a surrogate without its partner right beside it has none. -/
def decode? : JsonText → Option (List Char)
  | [] => some []
  | .char c :: rest => (decode? rest).map (c :: ·)
  -- A high and a low surrogate side by side are one character, and neither stands alone.
  | .unit high :: .unit low :: rest =>
    if isHigh high then
      if isLow low then (decode? rest).map (paired high low :: ·) else none
    else if isLow high then none
    else (decode? (.unit low :: rest)).map (Char.ofNat high.toNat :: ·)
  | .unit unit :: rest =>
    if isHigh unit || isLow unit then none
    else (decode? rest).map (Char.ofNat unit.toNat :: ·)

/-- Whether a character has a one-letter escape besides being a control character. -/
def hasLetter (c : Char) : Bool :=
  c = '\x08' || c = '\t' || c = '\n' || c = '\x0c' || c = '\r'

/-- How a character is written: control characters without a one-letter escape by their code, all
others as they are. -/
def encodeChar (c : Char) : TextPart :=
  if c.toNat < 0x20 && !hasLetter c then .unit (UInt16.ofNat c.toNat) else .char c

def encode (chars : List Char) : JsonText :=
  chars.map encodeChar

end JsonText

/-! ## Trees -/

/-- A value without parts. -/
inductive JsonScalar where
  | null
  | bool (value : Bool)
  /-- A plain natural number. -/
  | natural (value : Nat)
  /-- A number with a sign, a fraction or an exponent, as spelled. -/
  | decimal (spelling : List Char)
  | text (contents : JsonText)
  deriving DecidableEq, Repr

inductive JsonValue where
  | scalar (value : JsonScalar)
  | array (items : List JsonValue)
  | object (members : List (JsonText × JsonValue))

namespace JsonValue

def natural (value : Nat) : JsonValue :=
  .scalar (.natural value)

def string (text : String) : JsonValue :=
  .scalar (.text (JsonText.encode text.toList))

/-- The number of a plain natural number. -/
def natural? : JsonValue → Option Nat
  | .scalar (.natural value) => some value
  | _ => none

/-- The word of a plain natural number that fits into 64 bits. -/
def uint64? (value : JsonValue) : Option UInt64 :=
  value.natural?.bind fun n => if n < UInt64.size then some (UInt64.ofNat n) else none

/-- The byte of a plain natural number that fits into 8 bits. -/
def uint8? (value : JsonValue) : Option UInt8 :=
  value.natural?.bind fun n => if n < UInt8.size then some (UInt8.ofNat n) else none

def chars? : JsonValue → Option (List Char)
  | .scalar (.text contents) => contents.decode?
  | _ => none

end JsonValue

end BeaconDuties
