import EventSourcing.Text.Bytes

/-!
# What a log answers when it does not do as asked
-/

namespace EventSourcing

/-- What a writer expects of the stream that it appends to. -/
inductive Expectation
  /-- Anything goes. -/
  | any
  /-- The stream must not exist yet. -/
  | noStream
  /-- The last event must be at this revision. -/
  | exact (revision : Nat)
  deriving DecidableEq, Repr

namespace Expectation

/-- The expectation of a writer who knows the version of the stream, its number of events. -/
def ofVersion : Nat → Expectation
  | 0 => .noStream
  | n + 1 => .exact n

/-- Whether a stream at `version` is as expected. -/
def Matches (version : Nat) : Expectation → Prop
  | .any => True
  | .noStream => version = 0
  | .exact revision => version = revision + 1

instance (version : Nat) : DecidablePred (Matches version) := fun e => by
  cases e <;> unfold Matches <;> infer_instance

def describe : Expectation → String
  | .any => "Any"
  | .noStream => "NoStream"
  | .exact revision => "Exact(" ++ toString revision ++ ")"

end Expectation

inductive LogError
  | wrongExpectedVersion (stream : String) (expected : Expectation) (actual : Option Nat)
  | streamDeleted (stream : String)
  | subscriptionNotFound (stream group : String)
  | connection (reason : String)
  | subscriptionDropped (reason : String)
  deriving DecidableEq, Repr

namespace LogError

def describeVersion : Option Nat → String
  | none => "None"
  | some version => "Some(" ++ toString version ++ ")"

def message : LogError → String
  | .wrongExpectedVersion stream expected actual =>
    "wrong expected version on '" ++ stream ++ "': expected " ++ expected.describe ++
      ", actual " ++ describeVersion actual
  | .streamDeleted stream => "stream '" ++ stream ++ "' has been deleted"
  | .subscriptionNotFound stream group =>
    "persistent subscription '" ++ group ++ "' on '" ++ stream ++ "' not found"
  | .connection reason => "connection failed: " ++ reason
  | .subscriptionDropped reason => "subscription dropped: " ++ reason

/-- Whether a new connection may help. -/
def isLostConnection : LogError → Bool
  | .connection _ | .subscriptionDropped _ => true
  | _ => false

end LogError

end EventSourcing
