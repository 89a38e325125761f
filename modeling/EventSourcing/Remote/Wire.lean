import EventSourcing.Event.Record
import EventSourcing.Log.Group

/-!
# What is said to a log server

Calls to a log server, its replies, and the events that it hands out. A stream of references holds
links to events of other streams; the server follows them on request.
-/

namespace EventSourcing.Remote

/-- An event as the server keeps it. -/
structure Event where
  id : RecordId
  stream : String
  eventType : String
  revision : Nat
  commit : Nat
  prepare : Nat
  /-- Seconds. -/
  created : Int
  data : Bytes
  metadata : Bytes
  deriving DecidableEq, Repr

/-- What stands in a stream: an event, or a link with the event it leads to, if that is still
there. -/
inductive Slot
  | event (event : Event)
  | link (link : Event) (target : Option Event)
  deriving DecidableEq, Repr

/-- What stands in the stream itself. -/
def Slot.entry : Slot → Event
  | .event e => e
  | .link l _ => l

/-- What it stands for. -/
def Slot.content : Slot → Event
  | .event e => e
  | .link l target => target.getD l

/-- An event on its way to the server. -/
structure Outgoing where
  eventType : String
  payload : Bytes
  metadata : Option Bytes
  contentType : String
  deriving DecidableEq, Repr

/-- Where reading starts. -/
inductive Position
  | start
  | atEnd
  | revision (n : Nat)
  deriving DecidableEq, Repr

/-! ## Errors -/

inductive ServerError
  | resourceDeleted
  | resourceNotFound
  | resourceAlreadyExists
  | accessDenied
  | connectionClosed
  | deadlineExceeded
  | serverError (text : String)
  | illegalState (text : String)
  | wrongExpectedVersion (expected : Expectation) (current : Option Nat)
  deriving DecidableEq, Repr

def describeCurrent : Option Nat → String
  | some n => "Current(" ++ toString n ++ ")"
  | none => "NoStream"

def ServerError.message : ServerError → String
  | .resourceDeleted => "The resource you asked for was deleted"
  | .resourceNotFound => "The resource you asked for doesn't exist"
  | .resourceAlreadyExists => "The resource you tried to create already exists"
  | .accessDenied => "Access denied error"
  | .connectionClosed => "Connection is closed."
  | .deadlineExceeded => "Deadline exceeded"
  | .serverError text => "Server-side error: " ++ text
  | .illegalState text => "Illegal state error: " ++ text
  | .wrongExpectedVersion expected current =>
    "Wrong expected version: expected '" ++ expected.describe ++ "' but got '" ++
      describeCurrent current ++ "'"

/-- An event or an error, as a stream of events gives them. -/
abbrev Item := Except ServerError Slot

/-! ## Calls -/

/-- What readers of a group tell the server. -/
inductive Command
  | ack (ids : List RecordId)
  | nack (ids : List RecordId) (action : Refusal) (reason : String)
  deriving DecidableEq, Repr

structure GroupOptions where
  position : Position
  links : Bool
  lowerCheckpoint : Int
  upperCheckpoint : Int
  /-- Milliseconds. -/
  messageTimeout : Nat
  maxRetryCount : Int
  deriving DecidableEq, Repr

inductive Call
  | append (stream : String) (expected : Expectation) (events : List Outgoing)
  | read (stream : String) (position : Position) (backwards links : Bool) (max : Option Nat)
  | tombstone (stream : String)
  | subscribe (stream : String) (position : Position) (links : Bool)
  | createGroup (stream group : String) (options : GroupOptions)
  | connect (stream group : String) (bufferSize : Nat)
  | settle (command : Command)
  deriving DecidableEq, Repr

/-- What the server gives for a call that succeeds. -/
inductive Reply
  | done
  /-- The revision that an append has reached. -/
  | revision (n : Nat)
  | events (items : List Item)
  deriving Repr

/-- The revision of an append, zero if none was told. -/
def Reply.reached : Reply → Nat
  | .revision n => n
  | _ => 0

/-- The events of a read, none if none were told. -/
def Reply.items : Reply → List Item
  | .events items => items
  | _ => []

/-- Whatever answers calls. -/
class Responder (σ : Type) where
  request : σ → Call → Except ServerError Reply × σ

end EventSourcing.Remote
