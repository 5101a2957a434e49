import BeaconDuties.Json.Reader
import Mathlib

/-!
# Words — reading the words of a tree

The words of a tree are those that any spelling of it consists of.  The reader takes them one by one
and ends with the tree: inside open containers, whatever these hold so far, and whatever words
follow.

* `JsonValue.tokens` — the words of a tree;
* `JsonValue.foldlM_next?_tokens` — what reading them does to the state of the reader;
* `JsonValue.ofTokens?_tokens` — a tree is read back from its words.
-/

namespace BeaconDuties

namespace JsonValue

open JsonToken ReaderState

mutual

/-- The words of a value, first to last. -/
def tokens : JsonValue → List JsonToken
  | .scalar value => [.scalar value]
  | .array [] => [openArray, closeArray]
  | .array (first :: rest) => openArray :: tokens first ++ itemTokens rest ++ [closeArray]
  | .object [] => [openObject, closeObject]
  | .object ((name, first) :: rest) =>
    openObject :: .scalar (.text name) :: colon :: tokens first ++ memberTokens rest ++
      [closeObject]

/-- The words of the items after the first. -/
def itemTokens : List JsonValue → List JsonToken
  | [] => []
  | item :: rest => comma :: tokens item ++ itemTokens rest

/-- The words of the members after the first. -/
def memberTokens : List (JsonText × JsonValue) → List JsonToken
  | [] => []
  | (name, value) :: rest =>
    comma :: .scalar (.text name) :: colon :: tokens value ++ memberTokens rest

end

/-- No value starts with a closing bracket, so the first item of an array is read like any value. -/
theorem foldlM_next?_atFirstItem (value : JsonValue) (outer : List OpenContainer)
    (more : List JsonToken) :
    (value.tokens ++ more).foldlM next? (.atFirstItem outer) =
      (value.tokens ++ more).foldlM next? (.atValue (.array [] :: outer)) := by
  match value with
  | .scalar _ => rfl
  | .array [] => rfl
  | .array (_ :: _) => rfl
  | .object [] => rfl
  | .object (_ :: _) => rfl

mutual

/-- Where a value must follow, the words of a value are taken up and complete it. -/
theorem foldlM_next?_tokens (value : JsonValue) (outer : List OpenContainer)
    (more : List JsonToken) :
    (value.tokens ++ more).foldlM next? (.atValue outer) =
      more.foldlM next? (.complete value outer) := by
  match value with
  | .scalar _ => rfl
  | .array [] => rfl
  | .array (first :: rest) =>
    have hfirst := foldlM_next?_tokens first (.array [] :: outer)
      (itemTokens rest ++ closeArray :: more)
    have hrest := foldlM_next?_itemTokens rest first [] outer more
    calc
      _ = (first.tokens ++ (itemTokens rest ++ closeArray :: more)).foldlM next?
            (.atFirstItem outer) := by simp [tokens, next?, startValue?]
      _ = (itemTokens rest ++ closeArray :: more).foldlM next?
            (.complete first (.array [] :: outer)) := by
          rw [foldlM_next?_atFirstItem, hfirst]
      _ = _ := by rw [hrest]; rfl
  | .object [] => rfl
  | .object ((name, first) :: rest) =>
    have hfirst := foldlM_next?_tokens first (.object [] name :: outer)
      (memberTokens rest ++ closeObject :: more)
    have hrest := foldlM_next?_memberTokens rest name first [] outer more
    calc
      _ = (first.tokens ++ (memberTokens rest ++ closeObject :: more)).foldlM next?
            (.atValue (.object [] name :: outer)) := by simp [tokens, next?, startValue?]
      _ = _ := by rw [hfirst, hrest]; rfl

/-- After an item, the words of the items that remain complete the array. -/
theorem foldlM_next?_itemTokens (items : List JsonValue) (last : JsonValue)
    (before : List JsonValue) (outer : List OpenContainer) (more : List JsonToken) :
    (itemTokens items ++ closeArray :: more).foldlM next?
        (.complete last (.array before :: outer)) =
      more.foldlM next? (.complete (.array (before.reverse ++ last :: items)) outer) := by
  match items with
  | [] => simp [itemTokens, next?, continue?]
  | item :: rest =>
    have hitem := foldlM_next?_tokens item (.array (last :: before) :: outer)
      (itemTokens rest ++ closeArray :: more)
    have hrest := foldlM_next?_itemTokens rest item (last :: before) outer more
    calc
      _ = (item.tokens ++ (itemTokens rest ++ closeArray :: more)).foldlM next?
            (.atValue (.array (last :: before) :: outer)) := by
          simp [itemTokens, next?, continue?]
      _ = _ := by rw [hitem, hrest]; simp

/-- After a member, the words of the members that remain complete the object. -/
theorem foldlM_next?_memberTokens (members : List (JsonText × JsonValue)) (name : JsonText)
    (last : JsonValue) (before : List (JsonText × JsonValue)) (outer : List OpenContainer)
    (more : List JsonToken) :
    (memberTokens members ++ closeObject :: more).foldlM next?
        (.complete last (.object before name :: outer)) =
      more.foldlM next?
        (.complete (.object (before.reverse ++ (name, last) :: members)) outer) := by
  match members with
  | [] => simp [memberTokens, next?, continue?]
  | (next, value) :: rest =>
    have hvalue := foldlM_next?_tokens value (.object ((name, last) :: before) next :: outer)
      (memberTokens rest ++ closeObject :: more)
    have hrest := foldlM_next?_memberTokens rest next value ((name, last) :: before) outer more
    calc
      _ = (value.tokens ++ (memberTokens rest ++ closeObject :: more)).foldlM next?
            (.atValue (.object ((name, last) :: before) next :: outer)) := by
          simp [memberTokens, next?, continue?]
      _ = _ := by rw [hvalue, hrest]; simp

end

/-- A tree is read back from its words. -/
theorem ofTokens?_tokens (value : JsonValue) : ofTokens? value.tokens = some value := by
  have hread := foldlM_next?_tokens value [] []
  rw [List.append_nil] at hread
  rw [ofTokens?, hread]
  rfl

end JsonValue

end BeaconDuties
