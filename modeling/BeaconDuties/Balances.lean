import BeaconDuties.Primitives
import Std.Data.HashMap

/-!
# Balances — effective balances by validator

Selection only asks for the effective balance of one validator at a time, so it takes a function.
Two common sources of one are a list in registry order and a map that knows some validators only.
-/

namespace BeaconDuties

abbrev BalanceLookup := ValidatorIndex → Option Gwei

/-- Balances in registry order: a validator's index is its position. -/
def denseBalances (balances : Array Gwei) : BalanceLookup :=
  fun validator => balances[validator.toNat]?

abbrev BalanceMap := Std.HashMap ValidatorIndex Gwei

/-- The map of listed balances, of which the last one of a validator counts. -/
def BalanceMap.ofPairs (pairs : List (ValidatorIndex × Gwei)) : BalanceMap :=
  Std.HashMap.ofList pairs

def sparseBalances (balances : BalanceMap) : BalanceLookup :=
  fun validator => balances[validator]?

end BeaconDuties
