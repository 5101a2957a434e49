import BeaconDuties.Bytes
import BeaconDuties.Json.Basic

/-!
# Record — values with named fields as documents

A record is written as an object with its fields in declared order. It is read from an object that
has every field exactly once, in any order and among members of other names, or from an array of
exactly the fields' values in declared order.

* `JsonValue.record` — the object of named values;
* `JsonValue.fields?` — the values of the named fields, in declared order;
* `JsonValue.ofBytes`, `JsonValue.bytes?` — byte strings as arrays of numbers.
-/

namespace BeaconDuties

namespace JsonValue

def record (fields : List (String × JsonValue)) : JsonValue :=
  .object (fields.map fun (name, value) => (JsonText.encode name.toList, value))

/-- The members of an object by their decoded names, all of which must be decodable. -/
def namedMembers? (members : List (JsonText × JsonValue)) :
    Option (List (List Char × JsonValue)) :=
  members.mapM fun (name, value) => name.decode?.map fun name => (name, value)

/-- The value of the only member of a name. -/
def onlyMember? (members : List (List Char × JsonValue)) (name : String) : Option JsonValue :=
  match members.filter fun member => member.1 = name.toList with
  | [(_, value)] => some value
  | _ => none

/-- The values of the named fields, in the order of the names. -/
def fields? (names : List String) : JsonValue → Option (List JsonValue)
  | .array items => if items.length = names.length then some items else none
  | .object members => (namedMembers? members).bind fun members => names.mapM (onlyMember? members)
  | .scalar _ => none

/-! ## Byte strings -/

def ofBytes {n : Nat} (bytes : Bytes n) : JsonValue :=
  .array (bytes.toList.map fun byte => .natural byte.toNat)

/-- The byte string of an array of exactly `n` numbers below 256. -/
def bytes? (n : Nat) : JsonValue → Option (Bytes n)
  | .array items => (items.mapM uint8?).bind fun bytes => Bytes.ofArray? n bytes.toArray
  | _ => none

end JsonValue

end BeaconDuties
