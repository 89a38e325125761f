import EventSourcing.Store.Error
import EventSourcing.Subscription.Basic

/-!
# Observing a stream or a category

Whoever names a consumer group reads as a member of it, and the log keeps track of what the group
has settled. Everybody else reads from a position on and keeps track alone.
-/

namespace EventSourcing.Store

variable {σ E : Type} [Broker σ]

/-- Opens a subscription. A group is created on first use, and starts at `start` if that is
given. -/
def observe (client : σ) (options : SubscriptionOptions) (source : Source) (group : Option String)
    (start : Option Nat) : Except StoreError (Subscription E) × σ :=
  match group with
  | none => (.ok (.catchUp source start options.bufferSize options.retry), client)
  | some group =>
    let settings := { options.settings with startFrom := start.getD options.settings.startFrom }
    match Broker.createGroup client source.toStream group settings with
    | (.error e, client) => (.error (.ofLogError e), client)
    | (.ok _, client) => (.ok (.persistent source group options.bufferSize options.retry), client)

end EventSourcing.Store
