import BeaconDuties.Json.Token

/-!
# Reader — from words to a tree

The words of a document are read one by one into a state that holds the containers still open,
innermost first, each with what it has so far. Nothing is nested in the reader itself, so depth
costs nothing but memory.

* `OpenContainer`, `ReaderState` — where the reader stands;
* `ReaderState.next?` — one word;
* `JsonValue.ofTokens?`, `JsonValue.parse?` — the document of a list of words, and of a text.
-/

namespace BeaconDuties

/-- A container that is still open while one of its values is read; what it has so far is listed
latest first. -/
inductive OpenContainer where
  | array (items : List JsonValue)
  | object (members : List (JsonText × JsonValue)) (name : JsonText)

/-- Where the reader stands between two words. -/
inductive ReaderState where
  /-- A value must follow. -/
  | atValue (outer : List OpenContainer)
  | atFirstItem (outer : List OpenContainer)
  | atFirstName (outer : List OpenContainer)
  /-- The name of another member must follow. -/
  | atName (members : List (JsonText × JsonValue)) (outer : List OpenContainer)
  /-- The colon after a name must follow. -/
  | atColon (members : List (JsonText × JsonValue)) (name : JsonText) (outer : List OpenContainer)
  | complete (value : JsonValue) (outer : List OpenContainer)

namespace ReaderState

/-- A word where a value must follow. -/
def startValue? (outer : List OpenContainer) : JsonToken → Option ReaderState
  | .scalar value => some (.complete (.scalar value) outer)
  | .openArray => some (.atFirstItem outer)
  | .openObject => some (.atFirstName outer)
  | _ => none

/-- A word after a completed value. -/
def continue? (value : JsonValue) : List OpenContainer → JsonToken → Option ReaderState
  | .array items :: outer, .comma => some (.atValue (.array (value :: items) :: outer))
  | .array items :: outer, .closeArray =>
    some (.complete (.array (value :: items).reverse) outer)
  | .object members name :: outer, .comma => some (.atName ((name, value) :: members) outer)
  | .object members name :: outer, .closeObject =>
    some (.complete (.object ((name, value) :: members).reverse) outer)
  | _, _ => none

/-- The state after one more word, if the word may stand there. -/
def next? : ReaderState → JsonToken → Option ReaderState
  | .atValue outer, token => startValue? outer token
  -- Only a container that was just opened may be closed where a value could stand.
  | .atFirstItem outer, .closeArray => some (.complete (.array []) outer)
  | .atFirstItem outer, token => startValue? (.array [] :: outer) token
  | .atFirstName outer, .closeObject => some (.complete (.object []) outer)
  | .atFirstName outer, .scalar (.text name) => some (.atColon [] name outer)
  | .atName members outer, .scalar (.text name) => some (.atColon members name outer)
  | .atColon members name outer, .colon => some (.atValue (.object members name :: outer))
  | .complete value outer, token => continue? value outer token
  | _, _ => none

def document? : ReaderState → Option JsonValue
  | .complete value [] => some value
  | _ => none

end ReaderState

namespace JsonValue

def ofTokens? (tokens : List JsonToken) : Option JsonValue :=
  (tokens.foldlM ReaderState.next? (.atValue [])).bind ReaderState.document?

def parse? (text : String) : Option JsonValue :=
  (JsonToken.scan? text.toList).bind ofTokens?

end JsonValue

end BeaconDuties
