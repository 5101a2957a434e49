/-!
# Milestone — the forks of the chain in activation order

* `Milestone` — the six forks, oldest first;
* `Milestone.all` — all of them in that order;
* `Milestone.name`, `Milestone.ofName?` — the name of a fork, and the fork of a name;
* `m.atLeast k` — whether `m` is `k` or a later fork.
-/

namespace BeaconDuties

inductive Milestone where
  | phase0
  | altair
  | bellatrix
  | capella
  | deneb
  | electra
  deriving DecidableEq, Repr

instance : Inhabited Milestone := ⟨.phase0⟩

namespace Milestone

/-- Every fork, in activation order. -/
def all : List Milestone :=
  [phase0, altair, bellatrix, capella, deneb, electra]

def ordinal : Milestone → Nat
  | phase0 => 0
  | altair => 1
  | bellatrix => 2
  | capella => 3
  | deneb => 4
  | electra => 5

def name : Milestone → String
  | phase0 => "phase0"
  | altair => "altair"
  | bellatrix => "bellatrix"
  | capella => "capella"
  | deneb => "deneb"
  | electra => "electra"

def ofName? (text : String) : Option Milestone :=
  all.find? fun milestone => milestone.name == text

/-- Whether a fork is the required one or comes after it. -/
def atLeast (milestone required : Milestone) : Bool :=
  required.ordinal ≤ milestone.ordinal

theorem mem_all (milestone : Milestone) : milestone ∈ all := by
  cases milestone <;> decide

theorem getElem?_all_ordinal (milestone : Milestone) :
    all[milestone.ordinal]? = some milestone := by
  cases milestone <;> rfl

theorem atLeast_trans {later fork earlier : Milestone} (hlater : later.atLeast fork = true)
    (hfork : fork.atLeast earlier = true) : later.atLeast earlier = true := by
  rw [atLeast, decide_eq_true_iff] at *
  exact Nat.le_trans hfork hlater

theorem ofName?_name (milestone : Milestone) : ofName? milestone.name = some milestone := by
  cases milestone <;> decide

end Milestone

end BeaconDuties
