import EventSourcing.Log.CatchUp
import EventSourcing.Log.Member
import EventSourcing.Subscription.Loop
import EventSourcing.Subscription.Options

/-!
# Subscriptions

A subscription is a loop with its connection, a bounded queue of records between the loop and the
consumer, and the consumer's handle. The loop runs in small steps until it has to wait: for a
record, for room in the queue, or for the end of a pause.
-/

namespace EventSourcing

/-! ## Connections -/

inductive Connection
  | catchUp (reader : CatchUp)
  | member (member : Member)
  deriving DecidableEq, Repr

namespace Connection

/-- Opens a connection to a stream, or to a group on it. -/
def openOn (s : Server) (stream : String) (group : Option String) (start : Option Nat) :
    Except LogError Connection × Server :=
  match group with
  | none =>
    let (r, s) := CatchUp.openAt s stream start
    (r.map .catchUp, s)
  | some group =>
    let (r, s) := Member.connect s stream group
    (r.map .member, s)

/-- Asks for the next record, without waiting. -/
def poll (s : Server) : Connection → Poll × Connection × Server
  | .catchUp c =>
    let (p, c) := c.poll s
    (p, .catchUp c, s)
  | .member m =>
    let (p, s) := m.poll s
    (p, .member m, s)

/-- When a call that found nothing looks again, unless it is woken before. -/
def pollAgain? (now : Nat) : Connection → Option Nat
  | .catchUp _ => none
  | .member _ => some (now + memberPause)

end Connection

/-- What a subscription is connected to. Asking for a record begins a call, which goes on until
there is an answer. -/
class Broker (σ : Type) where
  createGroup : σ → String → String → GroupSettings → Except LogError Unit × σ
  connect : σ → String → Option String → Option Nat → Except LogError Connection × σ
  ask : σ → Connection → Poll × Connection × σ
  askAgain : σ → Connection → Poll × Connection × σ
  ack : σ → Member → List RecordId → Except LogError Unit × σ
  nack : σ → Member → List RecordId → Refusal → Except LogError Unit × Member × σ
  /-- Raised when waiting calls have to look again. -/
  signal : σ → Nat
  now : σ → Nat

instance : Broker Server where
  createGroup s stream group settings := (.ok (), s.createGroup stream group settings)
  connect := Connection.openOn
  ask s c := c.poll s
  askAgain s c := c.poll s
  ack s m ids := m.ack s ids
  nack s m ids action := m.nack s ids action
  signal := Server.signal
  now := Server.now

/-! ## The subscription -/

/-- A wait: the signal as it was at its beginning, and its end if it has one. -/
structure Wait where
  signal : Nat
  due : Option Nat
  deriving DecidableEq, Repr

/-- A loop over a stream, as a member of a group or on its own. -/
structure Subscription (E : Type) where
  stream : String
  group : Option String
  /-- How many records the queue holds. -/
  capacity : Nat
  loop : Loop E
  /-- What the consumer has not received yet. -/
  queue : List (Emission E)
  /-- There while the loop is connected. -/
  connection : Option Connection
  wait : Option Wait
  /-- Whether the consumer has closed its handle. -/
  closed : Bool

namespace Subscription

variable {E σ : Type}

/-- A subscription whose loop has not run yet. -/
def start (source : Source) (group : Option String) (bufferSize : Nat) (loop : Loop E) :
    Subscription E :=
  ⟨source.toStream, group, max bufferSize 1, loop, [], none, none, false⟩

/-- Follows a stream or category from a position on; connections are opened again with `retry`. -/
def catchUp (source : Source) (start : Option Nat) (bufferSize : Nat)
    (retry : Option RetrySettings) : Subscription E :=
  .start source none bufferSize (.catchUp start retry)

/-- Reads as a member of a group that exists; connections are opened again with `retry`. -/
def persistent (source : Source) (group : String) (bufferSize : Nat)
    (retry : Option RetrySettings) : Subscription E :=
  .start source (some group) bufferSize (.persistent retry)

/-- The loop moves on. It keeps its connection only as long as it needs it. -/
def moveTo (s : Subscription E) (loop : Loop E) : Subscription E :=
  { s with
    loop := loop
    connection := if loop.isConnected then s.connection else none
    wait := none }

/-- The reader that settles records, if there is one. -/
def member? (s : Subscription E) : Option Member :=
  match s.connection with
  | some (.member m) => some m
  | _ => none

section Steps

variable [Broker σ]

/-- What a call for the next record has come to. -/
def polled [DomainEvent E] (s : Subscription E) (r : Poll × Connection × σ) : Subscription E × σ :=
  match r with
  | (.pending, connection, client) =>
    ({ s with
        connection := some connection
        wait := some ⟨Broker.signal client, connection.pollAgain? (Broker.now client)⟩ }, client)
  | (p, connection, client) =>
    ({ s with connection := some connection }.moveTo (s.loop.polled p), client)

/-- Whether the end of the wait has come. -/
def isDue (client : σ) (w : Wait) : Bool := w.due.any (· ≤ Broker.now client)

/-- One step of the loop; none if it has to wait. -/
def step [DomainEvent E] (client : σ) (s : Subscription E) : Option (Subscription E × σ) :=
  match s.loop.place with
  | .finished _ => none
  | place =>
    if s.closed then some (s.moveTo s.loop.stop, client)
    else
      match place with
      | .opening =>
        match Broker.connect client s.stream s.group s.loop.start with
        | (.ok connection, client) =>
          some ({ s with connection := some connection }.moveTo s.loop.opened, client)
        | (.error e, client) => some (s.moveTo (s.loop.failed e), client)
      | .reading =>
        match s.connection, s.wait with
        | none, _ => none
        | some connection, none => some (s.polled (Broker.ask client connection))
        | some connection, some w =>
          if w.signal ≠ Broker.signal client ∨ isDue client w then
            some (s.polled (Broker.askAgain client connection))
          else none
      | .settling position ackId =>
        match s.member? with
        | none => none
        | some m =>
          let (r, client) := Broker.ack client m [ackId]
          some (s.moveTo (s.loop.settled position r), client)
      | .emitting position emission =>
        if s.queue.length < s.capacity then
          some ({ s with queue := s.queue ++ [emission] }.moveTo (s.loop.passed position), client)
        else none
      | .resting pause =>
        match s.wait with
        | none =>
          let due := Broker.now client + Backoff.spread pause
          some ({ s with wait := some ⟨Broker.signal client, some due⟩ }, client)
        | some w => if isDue client w then some (s.moveTo s.loop.rested, client) else none
      | .finished _ => none

end Steps

/-! ## The consumer's handle -/

/-- What the consumer gets without waiting. -/
inductive Receipt (E : Type)
  | record (value : Emission E)
  | ended
  | pending

/-- The next record, until the subscription is closed or has ended. -/
def receive (s : Subscription E) : Receipt E × Subscription E :=
  if s.closed then (.ended, s)
  else
    match s.queue with
    | emission :: rest => (.record emission, { s with queue := rest })
    | [] => (if s.loop.result?.isSome then .ended else .pending, s)

/-- The position of the last record that was queued or filtered. -/
def progress (s : Subscription E) : Option Nat := s.loop.position

/-- Closes the handle; the loop ends at its next step. -/
def close (s : Subscription E) : Subscription E := { s with closed := true }

/-- How the loop has ended, if it has. -/
def outcome? (s : Subscription E) : Option (Except SubscriptionError Unit) :=
  if s.closed then some (.ok ()) else s.loop.result?

/-- The reader through which the consumer settles records. -/
def ackReader (s : Subscription E) : Except SubscriptionError Member :=
  if s.closed then .error .closed
  else
    match s.member? with
    | some m => .ok m
    | none => .error .notConnected

/-- Settles a record as handled. -/
def ack [Broker σ] (client : σ) (s : Subscription E) (id : RecordId) :
    Except SubscriptionError Unit × σ :=
  match s.ackReader with
  | .error e => (.error e, client)
  | .ok m =>
    let (r, client) := Broker.ack client m [id]
    (r.mapError .log, client)

/-- Hands a record back. -/
def nack [Broker σ] (client : σ) (s : Subscription E) (id : RecordId) (action : Refusal) :
    Except SubscriptionError Unit × Subscription E × σ :=
  match s.ackReader with
  | .error e => (.error e, s, client)
  | .ok m =>
    let (r, m, client) := Broker.nack client m [id] action
    (r.mapError .log, { s with connection := some (.member m) }, client)

end Subscription

end EventSourcing
