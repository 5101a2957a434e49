/-!
# Permutation — checking that a map of positions is a permutation

A map of `n` positions is given as the list of its `n` targets. It is a permutation when every
target is a position and none occurs twice; that every position occurs then follows by counting.

* `Permutation.visit` — reads targets while marking them in a table;
* `isPermutation` — the check over a fresh table.
-/

namespace BeaconDuties

namespace Permutation

/-- Whether the targets are positions of the table, not yet marked there, and all different. -/
def visit (seen : Array Bool) : List Nat → Bool
  | [] => true
  | target :: rest =>
    if inBounds : target < seen.size then
      if seen[target] then false else visit (seen.set target true) rest
    else false

end Permutation

/-- Whether a list of targets takes its positions one to one onto themselves. -/
def isPermutation (mapping : List Nat) : Bool :=
  Permutation.visit (Array.replicate mapping.length false) mapping

end BeaconDuties
