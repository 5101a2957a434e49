import BeaconDuties.Hex
import Mathlib

/-!
# Digits — what a hexadecimal digit stands for

A hexadecimal digit stands for its place in one of the two alphabets, which differ in the case of
the letters.  Reading a digit finds that place, and writing a value writes the digit of the lower
alphabet.

* `Hex.Denotes` — a digit and its value;
* `Hex.nibbles` — the two values of a byte, high half first;
* `Hex.value?_eq_some_iff`, `Hex.toLower_eq_digit` — digits as they are read and written.
-/

namespace BeaconDuties

namespace Hex

def lowerDigits : List Char :=
  ['0', '1', '2', '3', '4', '5', '6', '7', '8', '9', 'a', 'b', 'c', 'd', 'e', 'f']

def upperDigits : List Char :=
  ['0', '1', '2', '3', '4', '5', '6', '7', '8', '9', 'A', 'B', 'C', 'D', 'E', 'F']

/-- A digit of either case stands for its place in the alphabet. -/
def Denotes (c : Char) (value : Nat) : Prop :=
  lowerDigits[value]? = some c ∨ upperDigits[value]? = some c

instance (c : Char) (value : Nat) : Decidable (Denotes c value) :=
  inferInstanceAs (Decidable (_ ∨ _))

/-- The values of the two halves of a byte. -/
def nibbles (byte : UInt8) : List Nat :=
  [byte.toNat / 16, byte.toNat % 16]

variable {c : Char} {value : Nat}

/-- What holds of the digits at each place of either alphabet holds of all digits. -/
theorem Denotes.ofPlaces {p : Char → Nat → Prop}
    (hp : ∀ place : Fin 16, p lowerDigits[place] place ∧ p upperDigits[place] place)
    (hc : Denotes c value) : p c value := by
  rcases hc with hlower | hupper
  · rcases List.getElem?_eq_some_iff.1 hlower with ⟨hplace, rfl⟩
    exact (hp ⟨value, hplace⟩).1
  · rcases List.getElem?_eq_some_iff.1 hupper with ⟨hplace, rfl⟩
    exact (hp ⟨value, hplace⟩).2

theorem toNat_lt_of_value? (hvalue : value? c = some value) : c.toNat < 103 := by
  rw [value?] at hvalue
  split_ifs at hvalue with hdecimal hlower hupper
  · have hlast : c.toNat ≤ 57 := hdecimal.2
    omega
  · have hlast : c.toNat ≤ 102 := hlower.2
    omega
  · have hlast : c.toNat ≤ 70 := hupper.2
    omega

/-- Reading a digit finds its place. -/
theorem value?_eq_some_iff : value? c = some value ↔ Denotes c value := by
  constructor
  · intro hvalue
    -- Past the last letter no character is a digit, so few remain to be looked at.
    have hread : ∀ code < 103, ∀ value ∈ value? (Char.ofNat code),
        Denotes (Char.ofNat code) value := by decide
    have hc := hread c.toNat (toNat_lt_of_value? hvalue) value
    rw [Char.ofNat_toNat] at hc
    exact hc hvalue
  · exact Denotes.ofPlaces (p := fun c value => value? c = some value) (by decide)

theorem Denotes.lt : Denotes c value → value < 16 :=
  Denotes.ofPlaces (p := fun _ value => value < 16) fun place => ⟨place.isLt, place.isLt⟩

/-- In lower case, a digit is the one that its value is written as. -/
theorem Denotes.toLower_eq_digit : Denotes c value → c.toLower = digit value :=
  Denotes.ofPlaces (p := fun c value => c.toLower = digit value) (by decide)

end Hex

end BeaconDuties
