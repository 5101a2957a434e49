import BeaconDuties.Hex
import BeaconDuties.Json.Basic

/-!
# Printer — from a tree to text

A layout says what stands between the words of a document; the words themselves are the same in
every layout.

* `JsonLayout`, `JsonLayout.compact`, `JsonLayout.indented` — nothing in between, or one member or
  item per line under two blanks of indentation;
* `JsonValue.render` — the characters of a document;
* `JsonValue.compact`, `JsonValue.pretty` — the text of a document.
-/

namespace BeaconDuties

/-- What stands between the words of a document. -/
structure JsonLayout where
  /-- In front of a member or item at a depth, and of the mark that closes its container. -/
  lineBreak : (depth : Nat) → List Char
  /-- Behind the colon of a member. -/
  afterColon : List Char

namespace JsonLayout

def compact : JsonLayout where
  lineBreak _ := []
  afterColon := []

def indented : JsonLayout where
  lineBreak depth := '\n' :: List.replicate (2 * depth) ' '
  afterColon := [' ']

end JsonLayout

/-! ## Scalars -/

/-- A part of a string as it stands between the quotes. -/
def TextPart.render : TextPart → List Char
  | .char '"' => ['\\', '"']
  | .char '\\' => ['\\', '\\']
  | .char '\x08' => ['\\', 'b']
  | .char '\t' => ['\\', 't']
  | .char '\n' => ['\\', 'n']
  | .char '\x0c' => ['\\', 'f']
  | .char '\r' => ['\\', 'r']
  | .char c => [c]
  | .unit value =>
    ['\\', 'u', Hex.digit (value.toNat / 4096), Hex.digit (value.toNat / 256 % 16),
      Hex.digit (value.toNat / 16 % 16), Hex.digit (value.toNat % 16)]

def JsonText.render (contents : JsonText) : List Char :=
  '"' :: contents.flatMap TextPart.render ++ ['"']

def JsonScalar.render : JsonScalar → List Char
  | .null => ['n', 'u', 'l', 'l']
  | .bool true => ['t', 'r', 'u', 'e']
  | .bool false => ['f', 'a', 'l', 's', 'e']
  | .natural value => Nat.toDigits 10 value
  | .decimal spelling => spelling
  | .text contents => contents.render

/-! ## Trees -/

namespace JsonValue

mutual

/-- The characters of a value whose container's members stand at the given depth. -/
def render (layout : JsonLayout) (depth : Nat) : JsonValue → List Char
  | .scalar value => value.render
  -- An empty container is never broken into lines.
  | .array [] => ['[', ']']
  | .array (first :: rest) =>
    '[' :: layout.lineBreak (depth + 1) ++ render layout (depth + 1) first ++
      renderItems layout (depth + 1) rest ++ layout.lineBreak depth ++ [']']
  | .object [] => ['\x7b', '\x7d']
  | .object ((name, first) :: rest) =>
    '\x7b' :: layout.lineBreak (depth + 1) ++ name.render ++ ':' :: layout.afterColon ++
      render layout (depth + 1) first ++ renderMembers layout (depth + 1) rest ++
      layout.lineBreak depth ++ ['\x7d']

def renderItems (layout : JsonLayout) (depth : Nat) : List JsonValue → List Char
  | [] => []
  | item :: rest =>
    ',' :: layout.lineBreak depth ++ render layout depth item ++ renderItems layout depth rest

def renderMembers (layout : JsonLayout) (depth : Nat) : List (JsonText × JsonValue) → List Char
  | [] => []
  | (name, value) :: rest =>
    ',' :: layout.lineBreak depth ++ name.render ++ ':' :: layout.afterColon ++
      render layout depth value ++ renderMembers layout depth rest

end

def compact (value : JsonValue) : String :=
  String.ofList (value.render .compact 0)

/-- The text of a document with one member or item per line. -/
def pretty (value : JsonValue) : String :=
  String.ofList (value.render .indented 0)

end JsonValue

end BeaconDuties
