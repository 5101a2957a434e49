/-!
# Hex — hexadecimal digits

* `Hex.digit` — the lower-case digit of a value below sixteen;
* `Hex.value?` — the value of a digit of either case.
-/

namespace BeaconDuties

namespace Hex

/-- The lower-case digit of a value below sixteen. -/
def digit (value : Nat) : Char :=
  if value < 10 then Char.ofNat (value + 48) else Char.ofNat (value + 87)

def value? (c : Char) : Option Nat :=
  if '0' ≤ c ∧ c ≤ '9' then some (c.toNat - 48)
  else if 'a' ≤ c ∧ c ≤ 'f' then some (c.toNat - 87)
  else if 'A' ≤ c ∧ c ≤ 'F' then some (c.toNat - 55)
  else none

/-- The two digits of a byte, high half first. -/
def byteDigits (byte : UInt8) : List Char :=
  [digit (byte.toNat / 16), digit (byte.toNat % 16)]

@[simp] theorem value?_digit {value : Nat} (small : value < 16) :
    value? (digit value) = some value := by
  revert value
  decide

end Hex

end BeaconDuties
