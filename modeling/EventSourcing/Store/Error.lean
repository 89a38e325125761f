import EventSourcing.Log.Error

/-!
# What a store answers when it does not do as asked
-/

namespace EventSourcing

/-- An append to a stream that has moved on. -/
structure Conflict where
  stream : String
  expected : Nat
  actual : Nat
  deriving DecidableEq, Repr

def Conflict.message (c : Conflict) : String :=
  "concurrency conflict on '" ++ c.stream ++ "': expected version " ++ toString c.expected ++
    ", actual " ++ toString c.actual

inductive StoreError
  | concurrency (conflict : Conflict)
  | streamDeleted (stream : String)
  | connection (reason : String)
  | log (error : LogError)
  deriving DecidableEq, Repr

namespace StoreError

def ofLogError : LogError → StoreError
  | .streamDeleted stream => .streamDeleted stream
  | .connection reason | .subscriptionDropped reason => .connection reason
  | e => .log e

def message : StoreError → String
  | .concurrency conflict => conflict.message
  | .streamDeleted stream => "stream '" ++ stream ++ "' has been deleted"
  | .connection reason => "store connection failed: " ++ reason
  | .log e => "store error: " ++ e.message

/-- Whether the same call may succeed later. -/
def isTransient : StoreError → Bool
  | .connection _ => true
  | _ => false

end StoreError

end EventSourcing
