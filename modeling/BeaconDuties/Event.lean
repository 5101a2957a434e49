import BeaconDuties.Error

/-!
# Event — what operations report while they run

Operations do not print. An operation that has something to report returns its events beside its
result, oldest first, and a caller decides what to do with them.

* `Event` — the things that can be reported;
* `Event.level`, `Event.component`, `Event.message`, `Event.fields` — how an event is shown;
* `Reported α` — a result together with the events reported on the way to it.
-/

namespace BeaconDuties

/-! ## Events -/

inductive Level where
  | trace
  | debug
  | info
  | warn
  deriving DecidableEq, Repr

def Level.name : Level → String
  | trace => "trace"
  | debug => "debug"
  | info => "info"
  | warn => "warn"

inductive Event where
  | listShuffled (size : Nat) (rounds : UInt8)
  /-- A lookup stored its shuffle, after which the store held `entries`. -/
  | shuffleStored (size entries : Nat)
  /-- A lookup found its seed stored by the time its own shuffle was ready. -/
  | shuffleAdopted
  | committeeCut (index count size : Nat)
  | proposerSelected (proposer : ValidatorIndex) (iterations : Nat)
  | subnetsComputed (epoch : Epoch) (subnets : List SubnetId)
  | batchVerified (sidecars : Nat) (verified : Bool)
  | registryReady (config : String) (milestones : Nat)
  /-- An operation was asked for before the fork that introduces it. -/
  | operationDeclined (operation : BlobOperation) (milestone required : Milestone)
  | configRejected (config : String) (cause : ConfigError)
  deriving DecidableEq, Repr

inductive FieldValue where
  | number (value : Nat)
  | flag (value : Bool)
  | text (value : String)
  deriving DecidableEq, Repr

namespace Event

def level : Event → Level
  | listShuffled .. | shuffleAdopted | subnetsComputed .. => .trace
  | shuffleStored .. | committeeCut .. | proposerSelected .. | batchVerified ..
  | operationDeclined .. => .debug
  | registryReady .. => .info
  | configRejected .. => .warn

/-- The part of the library that speaks, where it names itself. -/
def component : Event → Option String
  | listShuffled .. => some "shuffling"
  | shuffleStored .. | shuffleAdopted => some "shuffle_cache"
  | committeeCut .. => some "committee"
  | proposerSelected .. => some "proposer"
  | subnetsComputed .. => some "subnets"
  | batchVerified .. => some "blobs"
  | registryReady .. => some "registry"
  | operationDeclined .. => some "fork_helpers"
  | configRejected .. => none

def message : Event → String
  | listShuffled .. => "Shuffled list"
  | shuffleStored .. => "Stored shuffle"
  | shuffleAdopted => "Concurrent shuffle already stored"
  | committeeCut .. => "Computed committee"
  | proposerSelected .. => "Selected proposer"
  | subnetsComputed .. => "Computed subscribed subnets"
  | batchVerified .. => "Verified blob KZG proof batch"
  | registryReady .. => "Helpers registry initialized"
  | operationDeclined .. => "Operation declined for fork"
  | configRejected .. => "Rejected network config"

/-- A list of subnets between brackets, separated by commas and blanks. -/
def subnetsText (subnets : List SubnetId) : String :=
  "[" ++ ", ".intercalate (subnets.map fun subnet => toString subnet) ++ "]"

def fields : Event → List (String × FieldValue)
  | listShuffled size rounds => [("list_size", .number size), ("rounds", .number rounds.toNat)]
  | shuffleStored size entries => [("size", .number size), ("entries", .number entries)]
  | shuffleAdopted => []
  | committeeCut index count size =>
    [("committee_index", .number index), ("committee_count", .number count), ("size", .number size)]
  | proposerSelected proposer iterations =>
    [("proposer", .number proposer.toNat), ("iterations", .number iterations)]
  | subnetsComputed epoch subnets =>
    [("epoch", .number epoch.toNat), ("subnets", .text (subnetsText subnets))]
  | batchVerified sidecars verified =>
    [("sidecars", .number sidecars), ("verified", .flag verified)]
  | registryReady config milestones =>
    [("config", .text config), ("milestones", .number milestones)]
  | operationDeclined operation milestone required =>
    [("operation", .text operation.name), ("milestone", .text milestone.name),
      ("required", .text required.name)]
  | configRejected config cause => [("config", .text config), ("error", .text cause.message)]

end Event

/-! ## Results with their events -/

/-- A result and the events reported on the way to it, oldest first. -/
structure Reported (α : Type) where
  value : α
  events : List Event
  deriving DecidableEq, Repr

namespace Reported

def tell (events : List Event) : Reported Unit :=
  ⟨(), events⟩

/-- A result that is reported by an event computed from it when it is not an error. -/
def onSuccess {ε α : Type} (result : Except ε α) (event : α → Event) : Reported (Except ε α) :=
  ⟨result, match result with
    | .ok value => [event value]
    | .error _ => []⟩

instance : Monad Reported where
  pure value := ⟨value, []⟩
  bind first next :=
    let second := next first.value
    ⟨second.value, first.events ++ second.events⟩

variable {α β : Type}

@[simp] theorem value_pure (value : α) : (pure value : Reported α).value = value := rfl

@[simp] theorem events_pure (value : α) : (pure value : Reported α).events = [] := rfl

@[simp] theorem value_bind (first : Reported α) (next : α → Reported β) :
    (first >>= next).value = (next first.value).value := rfl

@[simp] theorem events_bind (first : Reported α) (next : α → Reported β) :
    (first >>= next).events = first.events ++ (next first.value).events := rfl

@[simp] theorem value_map (f : α → β) (first : Reported α) :
    (f <$> first).value = f first.value := rfl

@[simp] theorem events_map (f : α → β) (first : Reported α) :
    (f <$> first).events = first.events := by
  show first.events ++ [] = first.events
  exact List.append_nil _

@[simp] theorem value_tell (events : List Event) : (tell events).value = () := rfl

@[simp] theorem events_tell (events : List Event) : (tell events).events = events := rfl

end Reported

end BeaconDuties
