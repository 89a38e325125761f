import EventSourcing.Log.Server
import EventSourcing.Subscription.Backoff
import EventSourcing.Subscription.Verdict

/-!
# The consumption loop

A loop opens a connection, takes record after record from it, and hands those that decode to its
consumer. When the connection is lost it pauses and opens another one, as long as its backoff has
pauses left; an open connection gives it all pauses back. A catch-up loop asks to start after the
last record it has dealt with. A loop over a consumer group settles the records that it keeps from
its consumer; the others are the consumer's to settle.

The loop only says what it waits for (`Place`), and each transition tells it what has come of that.
-/

namespace EventSourcing

/-- A record on its way to the consumer. -/
structure Emission (E : Type) where
  record : Record E
  ackId : RecordId
  retryCount : Nat
  deriving DecidableEq, Repr

inductive SubscriptionError
  | closed
  | notConnected
  | log (error : LogError)
  deriving DecidableEq, Repr

def SubscriptionError.message : SubscriptionError → String
  | .closed => "subscription closed"
  | .notConnected => "subscription not connected"
  | .log e => e.message

/-- What a loop waits for. -/
inductive Place (E : Type)
  /-- A connection. -/
  | opening
  /-- The next record of the connection. -/
  | reading
  /-- The answer to settling a record that the consumer does not get. -/
  | settling (position : Nat) (ackId : RecordId)
  /-- Room for a record at the consumer. -/
  | emitting (position : Nat) (emission : Emission E)
  /-- The end of a pause. -/
  | resting (pause : Nat)
  /-- Nothing any more. -/
  | finished (result : Except SubscriptionError Unit)

/-- A loop that waits at a place. -/
structure Loop (E : Type) where
  place : Place E
  /-- Whether records that the consumer does not get have to be settled. -/
  settles : Bool
  /-- The position that the next connection starts at; none for the beginning. -/
  start : Option Nat
  /-- The position of the last record that was dealt with. -/
  position : Option Nat
  retry : Option RetrySettings
  backoff : Option Backoff

namespace Loop

variable {E : Type}

/-- A loop that reads from a position, or from the beginning. -/
def catchUp (start : Option Nat) (retry : Option RetrySettings) : Loop E where
  place := .opening
  settles := false
  start := start
  position := match start with
    | some (n + 1) => some n
    | _ => none
  retry := retry
  backoff := retry.map .start

/-- A loop that reads what a consumer group hands out. -/
def persistent (retry : Option RetrySettings) : Loop E :=
  { Loop.catchUp none retry with settles := true }

/-- Whether the loop holds a connection. -/
def isConnected (l : Loop E) : Bool :=
  match l.place with
  | .reading | .settling _ _ | .emitting _ _ => true
  | _ => false

def result? (l : Loop E) : Option (Except SubscriptionError Unit) :=
  match l.place with
  | .finished r => some r
  | _ => none

/-- The loop ends, on request or because its connection has come to its end. -/
def stop (l : Loop E) : Loop E := { l with place := .finished (.ok ()) }

/-- A connection was opened. -/
def opened (l : Loop E) : Loop E :=
  { l with place := .reading, backoff := l.retry.map .start }

/-- A connection could not be opened, or was lost. -/
def failed (l : Loop E) (e : LogError) : Loop E :=
  if e.isLostConnection then
    match l.backoff.bind Backoff.next? with
    | some (pause, backoff) => { l with place := .resting pause, backoff := some backoff }
    | none => { l with place := .finished (.error (.log e)) }
  else { l with place := .finished (.error (.log e)) }

/-- The pause is over. -/
def rested (l : Loop E) : Loop E := { l with place := .opening }

/-- The record at `position` has been dealt with. -/
def passed (l : Loop E) (position : Nat) : Loop E :=
  { l with place := .reading, start := some (position + 1), position := some position }

/-- The connection has handed out a record. -/
def received [DomainEvent E] (l : Loop E) (d : Delivery) : Loop E :=
  match (Verdict.of E d.record).delivered? with
  | some record => { l with place := .emitting d.position ⟨record, d.ackId, d.retryCount⟩ }
  | none =>
    if l.settles then { l with place := .settling d.position d.ackId } else l.passed d.position

/-- Settling the record at `position` was answered. Only a lost connection matters. -/
def settled (l : Loop E) (position : Nat) : Except LogError Unit → Loop E
  | .ok _ => l.passed position
  | .error e => if e.isLostConnection then l.failed e else l.passed position

/-- What asking the connection for a record has come to; nothing changes while it has nothing. -/
def polled [DomainEvent E] (l : Loop E) : Poll → Loop E
  | .delivery d => l.received d
  | .ended => l.stop
  | .failed e => l.failed e
  | .pending => l

end Loop

end EventSourcing
