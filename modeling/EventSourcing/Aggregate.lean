import EventSourcing.Event.Encoding

/-!
# Aggregates

The state of an aggregate is never stored: it is the fold of its events, from the zero state, in the
order of their positions. A root holds an aggregate with its identity, the version it was loaded or
saved at, and the events that wait to be saved.
-/

namespace EventSourcing

/-- A state that evolves by events. Its streams are named after `kind`. -/
class Aggregate (A : Type) (E : outParam Type) [DomainEvent E] where
  kind : String
  zero : A
  apply : A → E → A

/-- An aggregate with an event that marks it as deleted. -/
class Removable (A : Type) (E : outParam Type) [DomainEvent E] [Aggregate A E] where
  deletion : A → E

section

variable {A E : Type} [DomainEvent E] [Aggregate A E]

/-- Applies events one after the other. -/
def applyAll (state : A) (events : List E) : A := events.foldl Aggregate.apply state

/-- Records in the order of their positions, equal positions as they came. -/
def inPositionOrder (records : List (Record E)) : List (Record E) :=
  records.mergeSort fun a b => a.position ≤ b.position

/-- The state after the events of the records, in the order of their positions. -/
def replay (records : List (Record E)) : A :=
  applyAll Aggregate.zero ((inPositionOrder records).map (·.data))

end

/-! ## Roots -/

structure Root (A E : Type) where
  id : String
  version : Nat
  state : A
  pending : List E
  deriving DecidableEq, Repr

namespace Root

variable {A E : Type} [DomainEvent E] [Aggregate A E]

/-- An aggregate that has no stream yet. -/
def new (id : String) : Root A E := ⟨id, 0, Aggregate.zero, []⟩

/-- An aggregate as it was at a version. -/
def loaded (id : String) (version : Nat) (state : A) : Root A E := ⟨id, version, state, []⟩

/-- Applies an event and keeps it for saving. -/
def raise (r : Root A E) (event : E) : Root A E :=
  { r with state := Aggregate.apply r.state event, pending := r.pending ++ [event] }

def raiseAll (r : Root A E) (events : List E) : Root A E := events.foldl raise r

/-- Raises what a decision on the current state gives; a rejection changes nothing. -/
def execute {ε : Type} (r : Root A E) (decide : A → Except ε (List E)) : Except ε (Root A E) :=
  (decide r.state).map r.raiseAll

/-- The pending events are stored, and the stream is at `version`. -/
def saved (r : Root A E) (version : Nat) : Root A E := { r with version := version, pending := [] }

end Root

end EventSourcing
