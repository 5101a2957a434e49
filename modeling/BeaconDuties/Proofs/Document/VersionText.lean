import BeaconDuties.Document.VersionText
import BeaconDuties.Proofs.Hex.Digits

/-!
# VersionText — which texts are versions

A version is read from two digits for each of its bytes, behind at most one mark.  A mark ends in no
digit, so what starts with one is never read as digits, and behind it no other is looked for.  All
other texts are refused, whatever their length and their characters.

* `VersionText.Spells` — the texts of a version, with their digits;
* `VersionText.bytes?_eq_some_iff` — the digits of a byte string;
* `VersionText.parse?_eq_some_iff`, `VersionText.parse?_render` — versions as they are read;
* `VersionText.parse?_spells` — what is read, and how it is written again.
-/

namespace BeaconDuties

namespace Hex

theorem nibbles_ofNat {high low : Nat} (hhigh : high < 16) (hlow : low < 16) :
    nibbles (UInt8.ofNat (16 * high + low)) = [high, low] := by
  have hbyte : (UInt8.ofNat (16 * high + low)).toNat = 16 * high + low := by
    rw [UInt8.toNat_ofNat', Nat.mod_eq_of_lt (by omega)]
  have hdiv : (16 * high + low) / 16 = high := by omega
  have hmod : (16 * high + low) % 16 = low := by omega
  rw [nibbles, hbyte, hdiv, hmod]

/-- The digits of a byte stand for its halves. -/
theorem denotes_byteDigits (byte : UInt8) :
    List.Forall₂ Denotes (byteDigits byte) (nibbles byte) := by
  have hhigh : byte.toNat / 16 < 16 := Nat.div_lt_of_lt_mul byte.toNat_lt
  have hlow : byte.toNat % 16 < 16 := Nat.mod_lt byte.toNat (by decide)
  exact .cons (value?_eq_some_iff.1 (value?_digit hhigh))
    (.cons (value?_eq_some_iff.1 (value?_digit hlow)) .nil)

theorem denotes_flatMap_byteDigits (bytes : List UInt8) :
    List.Forall₂ Denotes (bytes.flatMap byteDigits) (bytes.flatMap nibbles) := by
  induction bytes with
  | nil => exact .nil
  | cons byte bytes ih => exact List.rel_append (denotes_byteDigits byte) ih

/-- In lower case, digits are those that their values are written as. -/
theorem map_toLower_of_denotes {digits : List Char} {values : List Nat}
    (hdigits : List.Forall₂ Denotes digits values) :
    digits.map Char.toLower = values.map digit := by
  induction hdigits with
  | nil => rfl
  | cons hc _ ih => rw [List.map_cons, List.map_cons, hc.toLower_eq_digit, ih]

end Hex

namespace VersionText

/-! ## Bytes -/

theorem bytes?_of_denotes {digits : List Char} {bytes : List UInt8}
    (hdigits : List.Forall₂ Hex.Denotes digits (bytes.flatMap Hex.nibbles)) :
    bytes? digits = some bytes := by
  induction bytes generalizing digits with
  | nil =>
    cases hdigits
    rfl
  | cons byte bytes ih =>
    rcases hdigits with _ | ⟨hhigh, _ | ⟨hlow, hrest⟩⟩
    have hbyte : UInt8.ofNat (16 * (byte.toNat / 16) + byte.toNat % 16) = byte := by
      rw [Nat.div_add_mod, UInt8.ofNat_toNat]
    rw [bytes?, Hex.value?_eq_some_iff.2 hhigh, Hex.value?_eq_some_iff.2 hlow]
    simp only [ih hrest, Option.map_some, hbyte]

/-- Bytes are read just from two digits for each, high half first. -/
theorem bytes?_eq_some_iff {digits : List Char} {bytes : List UInt8} :
    bytes? digits = some bytes ↔ List.Forall₂ Hex.Denotes digits (bytes.flatMap Hex.nibbles) := by
  refine ⟨?_, bytes?_of_denotes⟩
  intro hbytes
  fun_induction bytes? digits generalizing bytes with
  | case1 =>
    cases hbytes
    exact .nil
  | case2 => cases hbytes
  | case3 first second rest low high hsecond hfirst ih =>
    rcases Option.map_eq_some_iff.1 hbytes with ⟨more, hmore, rfl⟩
    have hhigh := Hex.value?_eq_some_iff.1 hfirst
    have hlow := Hex.value?_eq_some_iff.1 hsecond
    rw [List.flatMap_cons, Hex.nibbles_ofNat hhigh.lt hlow.lt]
    exact .cons hhigh (.cons hlow (ih hmore))
  | case4 => cases hbytes

/-! ## Marks -/

/-- A text of a version: at most one mark, and two digits for each byte behind it, high half
first. -/
structure Spells (text digits : List Char) (version : Version) : Prop where
  marked : text = digits ∨ text = '0' :: 'x' :: digits ∨ text = '0' :: 'X' :: digits
  eight : digits.length = 8
  denotes : List.Forall₂ Hex.Denotes digits (version.toList.flatMap Hex.nibbles)

/-- A mark ends in no digit, so digits are not taken for one. -/
theorem unmarked_of_denotes {digits : List Char} {values : List Nat}
    (hdigits : List.Forall₂ Hex.Denotes digits values) : unmarked digits = digits := by
  have hmark : ∀ c value, Hex.value? c = none → ¬ Hex.Denotes c value := fun c value hnone hc => by
    rw [Hex.value?_eq_some_iff.2 hc] at hnone
    cases hnone
  -- A text with a mark would have its letter as a second digit.
  fun_cases unmarked digits with
  | case1 =>
    rcases hdigits with _ | ⟨_, _ | ⟨hx, _⟩⟩
    exact absurd hx (hmark 'x' _ (by decide))
  | case2 =>
    rcases hdigits with _ | ⟨_, _ | ⟨hx, _⟩⟩
    exact absurd hx (hmark 'X' _ (by decide))
  | case3 => rfl

theorem unmarked_cases (text : List Char) :
    text = unmarked text ∨ text = '0' :: 'x' :: unmarked text ∨
      text = '0' :: 'X' :: unmarked text := by
  fun_cases unmarked text with
  | case1 => exact .inr (.inl rfl)
  | case2 => exact .inr (.inr rfl)
  | case3 => exact .inl rfl

theorem Spells.unmarked_eq {text digits : List Char} {version : Version}
    (hspells : Spells text digits version) : unmarked text = digits := by
  rcases hspells.marked with rfl | rfl | rfl
  · exact unmarked_of_denotes hspells.denotes
  · rfl
  · rfl

/-! ## Versions -/

theorem parse?_eq_some_iff_bytes? {text : List Char} {version : Version} :
    parse? text = some version ↔ bytes? (unmarked text) = some version.toList := by
  rw [parse?, Option.bind_eq_some_iff]
  constructor
  · rintro ⟨bytes, hbytes, hversion⟩
    rw [hbytes, Bytes.ofArray?_toArray_eq_some_iff.1 hversion]
  · intro hbytes
    exact ⟨version.toList, hbytes, Bytes.ofArray?_toArray_eq_some_iff.2 rfl⟩

/-- A version is read just from its texts. -/
theorem parse?_eq_some_iff {text : List Char} {version : Version} :
    parse? text = some version ↔ ∃ digits, Spells text digits version := by
  rw [parse?_eq_some_iff_bytes?, bytes?_eq_some_iff]
  constructor
  · intro hdigits
    have hlength : (version.toList.flatMap Hex.nibbles).length = 8 := by
      simp [Hex.nibbles, List.length_flatMap]
    exact ⟨unmarked text, unmarked_cases text, hdigits.length_eq.trans hlength, hdigits⟩
  · rintro ⟨digits, hspells⟩
    rw [hspells.unmarked_eq]
    exact hspells.denotes

theorem spells_render (version : Version) :
    Spells (render version) (version.toList.flatMap Hex.byteDigits) version where
  marked := .inr (.inl rfl)
  eight := by simp [Hex.byteDigits, List.length_flatMap]
  denotes := Hex.denotes_flatMap_byteDigits version.toList

theorem parse?_render (version : Version) : parse? (render version) = some version :=
  parse?_eq_some_iff.2 ⟨_, spells_render version⟩

/-- A version is written as a small mark and its digits in lower case. -/
theorem Spells.render_eq {text digits : List Char} {version : Version}
    (hspells : Spells text digits version) :
    render version = '0' :: 'x' :: digits.map Char.toLower := by
  have hwritten : version.toList.flatMap Hex.byteDigits =
      (version.toList.flatMap Hex.nibbles).map Hex.digit := by
    rw [List.map_flatMap]
    rfl
  rw [render, hwritten, Hex.map_toLower_of_denotes hspells.denotes]

/-- A version is read from a text just if that consists of the version's eight digits behind at most
one mark.  It is read back from its own text, and every other text of it is written again as a
small mark and the same digits in lower case. -/
theorem parse?_spells (text : String) (version : Version) :
    (parse? text.toList = some version ↔ ∃ digits, Spells text.toList digits version) ∧
    parse? (render version) = some version ∧
    ∀ digits, Spells text.toList digits version →
      render version = '0' :: 'x' :: digits.map Char.toLower :=
  ⟨parse?_eq_some_iff, parse?_render version, fun _ hspells => hspells.render_eq⟩

/-- A large mark and digits of both cases. -/
theorem parse?_spells_mixed :
    Spells "0X90aBCd0f".toList ['9', '0', 'a', 'B', 'C', 'd', '0', 'f']
      (.ofFour 0x90 0xab 0xcd 0x0f) ∧
      parse? "0X90aBCd0f".toList = some (.ofFour 0x90 0xab 0xcd 0x0f) ∧
      render (.ofFour 0x90 0xab 0xcd 0x0f) = "0x90abcd0f".toList := by
  have hspells : Spells "0X90aBCd0f".toList ['9', '0', 'a', 'B', 'C', 'd', '0', 'f']
      (.ofFour 0x90 0xab 0xcd 0x0f) := by
    refine ⟨.inr (.inr (by decide)), rfl, ?_⟩
    decide
  rcases parse?_spells "0X90aBCd0f" (.ofFour 0x90 0xab 0xcd 0x0f) with ⟨hread, _, hwritten⟩
  exact ⟨hspells, hread.2 ⟨_, hspells⟩, (hwritten _ hspells).trans (by decide)⟩

end VersionText

end BeaconDuties
