import EventSourcing.Log.Group
import EventSourcing.Log.Scope
import EventSourcing.Subscription.Backoff

/-!
# What a subscription reads, and how
-/

namespace EventSourcing

/-- One stream, or all streams of a category. -/
inductive Source
  | stream (name : String)
  | category (name : String)
  deriving DecidableEq, Repr

/-- The stream to subscribe to. -/
def Source.toStream : Source → String
  | .stream name => name
  | .category name => streamOfCategory name

def defaultCapacity : Nat := 256

structure SubscriptionOptions where
  /-- How many records wait for the consumer; at least one does. -/
  bufferSize : Nat := defaultCapacity
  /-- The group of those who ask for the configured one. -/
  consumerGroup : Option String := none
  /-- The settings of groups that have to be created. -/
  settings : GroupSettings := {}
  /-- How lost connections are opened again; not at all without it. -/
  retry : Option RetrySettings := none
  deriving DecidableEq, Repr

end EventSourcing
