/-!
# Saturating — word arithmetic that stops at its ends

Sums and products of words that do not fit are the largest word, differences that would be negative
are zero. Each operation is the exact one on natural numbers, cut off at the end.

* `Saturating.clamp` — the word nearest to a natural number;
* `Saturating.add`, `Saturating.mul`, `Saturating.sub`, with their exact values.
-/

namespace BeaconDuties

namespace Saturating

def maxWord : Nat := UInt64.size - 1

/-- A natural number as a word, or the largest word if it does not fit. -/
def clamp (value : Nat) : UInt64 :=
  UInt64.ofNat (min value maxWord)

theorem toNat_clamp (value : Nat) : (clamp value).toNat = min value maxWord := by
  have bound : min value maxWord < UInt64.size := by unfold maxWord UInt64.size; omega
  simpa [clamp, UInt64.toNat_ofNat] using Nat.mod_eq_of_lt bound

theorem toNat_le (word : UInt64) : word.toNat ≤ maxWord :=
  Nat.le_sub_one_of_lt word.toNat_lt

def add (a b : UInt64) : UInt64 :=
  clamp (a.toNat + b.toNat)

def mul (a b : UInt64) : UInt64 :=
  clamp (a.toNat * b.toNat)

def sub (a b : UInt64) : UInt64 :=
  clamp (a.toNat - b.toNat)

theorem toNat_add (a b : UInt64) : (add a b).toNat = min (a.toNat + b.toNat) maxWord :=
  toNat_clamp _

theorem toNat_mul (a b : UInt64) : (mul a b).toNat = min (a.toNat * b.toNat) maxWord :=
  toNat_clamp _

theorem toNat_mul_of_le {a b : UInt64} (fits : a.toNat * b.toNat ≤ maxWord) :
    (mul a b).toNat = a.toNat * b.toNat := by
  rw [toNat_mul, Nat.min_eq_left fits]

theorem toNat_sub (a b : UInt64) : (sub a b).toNat = a.toNat - b.toNat := by
  have bound := a.toNat_lt
  rw [sub, toNat_clamp, Nat.min_eq_left]
  unfold maxWord UInt64.size
  omega

end Saturating

end BeaconDuties
