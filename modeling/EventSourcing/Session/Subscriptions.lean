import EventSourcing.Session.Readers
import EventSourcing.Store.Observe

/-!
# The subscriptions of a session

Subscriptions have names, for each domain of events those of catch-up subscriptions and those of
group subscriptions. Where both have a name, it stands for the catch-up subscription.
-/

namespace EventSourcing

/-- Whether the subscription reads as a member of a group. -/
def Subscription.isPersistent {E : Type} (s : Subscription E) : Bool := s.group.isSome

namespace Session

/-- Whether the task is the subscription of this name and sort. -/
def isTask (d : Domain) (name : String) (persistent : Bool) (t : Task) : Bool :=
  t.domain = d && t.name = name && t.subscription.isPersistent == persistent

/-- The subscription of a task, if it is one of this domain. -/
def subscriptionOf? (d : Domain) (t : Task) : Option (Subscription d.Event) :=
  if h : t.domain = d then some (h ▸ t.subscription) else none

/-- The subscription of a name. -/
def subscription? (s : Session) (d : Domain) (name : String) : Option (Subscription d.Event) :=
  let named (persistent : Bool) :=
    (s.tasks.find? (isTask d name persistent)).bind (subscriptionOf? d)
  (named false).or (named true)

/-- Changes the subscription of a name. -/
def setSubscription (s : Session) (d : Domain) (name : String) (x : Subscription d.Event) :
    Session :=
  { s with
    tasks := s.tasks.map fun t =>
      if isTask d name x.isPersistent t then ⟨d, name, x, t.turn⟩ else t }

/-- Lets go of the subscription of this name and sort, which ends its loop. -/
def dropSubscription (s : Session) (d : Domain) (name : String) (persistent : Bool) : Session :=
  { s with tasks := s.tasks.filter fun t => !isTask d name persistent t }

/-- Starts a subscription under a name. -/
def addSubscription (s : Session) (d : Domain) (name : String) (x : Subscription d.Event) :
    Session :=
  let s := s.dropSubscription d name x.isPersistent
  { s with tasks := s.tasks ++ [⟨d, name, x, s.turns⟩], turns := s.turns + 1 }

/-- Observes a stream or category under a name. -/
def observe (s : Session) (d : Domain) (name : String) (source : Source) (group : Option String)
    (start : Option Nat) : Except StoreError (Subscription d.Event) × Session :=
  match s.call fun c => Store.observe c s.options source group start with
  | (.ok x, s) => (.ok x, s.addSubscription d name x)
  | (.error e, s) => (.error e, s)

/-- Takes up to so many records from a subscription, and settles each of them if asked to. -/
def receiveMany (s : Session) (d : Domain) (name : String) (settles : Bool) :
    Nat → Option (List (Emission d.Event) × Reading × Session)
  | 0 => (s.subscription? d name).map fun _ => ([], .more, s)
  | count + 1 => do
    match (← s.subscription? d name).receive with
    | (.record e, x) =>
      let s := s.setSubscription d name x
      let s := if settles && x.isPersistent then (s.call fun c => x.ack c e.ackId).2 else s
      let (es, reading, s) ← s.settle.receiveMany d name settles count
      return (e :: es, reading, s)
    | (.ended, _) => return ([], .ended, s)
    | (.pending, _) => return ([], .pending, s)

/-- Settles a record of a group subscription as handled; none if there is no such subscription. -/
def ackRecord? (s : Session) (d : Domain) (name : String) (id : RecordId) :
    Option (Except SubscriptionError Unit × Session) := do
  let x ← (s.subscription? d name).filter (·.isPersistent)
  return s.call fun c => x.ack c id

/-- Hands a record of a group subscription back; none if there is no such subscription. -/
def nackRecord? (s : Session) (d : Domain) (name : String) (id : RecordId) (action : Refusal) :
    Option (Except SubscriptionError Unit × Session) := do
  let x ← (s.subscription? d name).filter (·.isPersistent)
  let ((r, x), s) := s.call fun c =>
    let (r, x, c) := x.nack c id action
    ((r, x), c)
  return (r, s.setSubscription d name x)

def closeSubscription? (s : Session) (d : Domain) (name : String) : Option Session :=
  (s.subscription? d name).map fun x => s.setSubscription d name x.close

/-- Lets go of a subscription and tells how its loop has ended, none if it has not; none at all if
there is no such subscription. -/
def finishSubscription? (s : Session) (d : Domain) (name : String) :
    Option (Option (Except SubscriptionError Unit) × Session) :=
  (s.subscription? d name).map fun x => (x.outcome?, s.dropSubscription d name x.isPersistent)

end Session

end EventSourcing
