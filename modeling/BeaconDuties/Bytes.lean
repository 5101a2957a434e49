/-!
# Bytes — fixed-width byte strings and their number encodings

Seeds, roots, versions and domains are byte strings whose width is part of what they are, so the
width is part of the type. This file defines:

* `Bytes n` — strings of exactly `n` bytes;
* `Bytes.zero` — the all-zero string, and `Bytes.ofFour` — a string of four given bytes;
* `Bytes.littleEndian` — the low bytes of a number, lowest byte first;
* `Bytes.toNatLE`, `Bytes.toNatBE` — the number a byte string spells in either order;
* `Bytes.leading` — the first bytes of a string;
* `Bytes.ofArray?` — the bytes of an array of the right size.
-/

namespace BeaconDuties

/-- A string of exactly `n` bytes. -/
abbrev Bytes (n : Nat) := Vector UInt8 n

namespace Bytes

variable {n : Nat}

def zero (n : Nat) : Bytes n :=
  Vector.replicate n 0

def ofFour (a b c d : UInt8) : Bytes 4 :=
  #v[a, b, c, d]

/-- The lowest `k` bytes of a number, lowest byte first; anything above them is dropped. -/
def littleEndian (k value : Nat) : Bytes k :=
  Vector.ofFn fun i => UInt8.ofNat (value >>> (8 * i.val))

/-- The number spelled by the bytes, lowest byte first. -/
def toNatLE (bytes : Bytes n) : Nat :=
  bytes.toList.foldr (fun byte value => byte.toNat + 256 * value) 0

/-- The number spelled by the bytes, highest byte first. -/
def toNatBE (bytes : Bytes n) : Nat :=
  bytes.toList.foldl (fun value byte => 256 * value + byte.toNat) 0

def leading (bytes : Bytes n) (k : Nat) (fits : k ≤ n := by decide) : Bytes k :=
  (bytes.take k).cast (Nat.min_eq_left fits)

/-- The bytes of an array that has exactly `n` of them. -/
def ofArray? (n : Nat) (bytes : Array UInt8) : Option (Bytes n) :=
  if width : bytes.size = n then some ⟨bytes, width⟩ else none

theorem ofArray?_toArray_eq_some_iff {list : List UInt8} {bytes : Bytes n} :
    ofArray? n list.toArray = some bytes ↔ list = bytes.toList := by
  rw [ofArray?]
  constructor
  · intro hfound
    split at hfound
    · cases hfound
      rfl
    · cases hfound
  · intro hlist
    have harray : bytes.toList.toArray = bytes.toArray := Array.toArray_toList
    simp [hlist, harray]

end Bytes

end BeaconDuties
