import EventSourcing.Log.Scope
import EventSourcing.Remote.Wire

/-!
# Between a log and its server

How revisions, positions, events and errors of a log are put to its server, and how what comes back
is understood.
-/

namespace EventSourcing.Remote

/-- Streams of references are read with their links followed. -/
def holdsLinks (stream : String) : Bool :=
  Text.hasPrefix categoryMark stream || stream = wholeLog

/-- The position to subscribe from, for a reader who wants to begin at a given one: the server
begins behind the position that it is told. -/
def Position.before : Option Nat → Position
  | none | some 0 => .start
  | some (n + 1) => .revision n

/-- The content type of events whose payload the server does not look into. -/
def binaryContentType : String := "application/octet-stream"

/-- An event for the server, which gives it an id of its own. -/
def Outgoing.ofEncoded (d : EncodedEvent) : Outgoing where
  eventType := d.eventType
  payload := d.data
  metadata := if d.metadata = [] then none else some d.metadata
  contentType := binaryContentType

/-- The record of an event. -/
def Event.record (e : Event) : StoredRecord where
  stream := e.stream
  eventType := e.eventType
  id := e.id
  position := e.revision
  commit := e.commit
  recordedAt := e.created
  data := e.data
  metadata := e.metadata

/-- A delivery of what a stream holds: the record is that of the event, position and id are those of
the place in the stream. A link whose event is gone is delivered itself. -/
def Slot.delivery (r : Slot) (retryCount : Nat) : Delivery where
  record := r.content.record
  position := r.entry.revision
  ackId := r.entry.id
  retryCount := retryCount

/-- A number of 32 bits as the server understands it, with a sign. -/
def asSigned (n : Nat) : Int := Int.bmod n 0x100000000

def GroupOptions.ofSettings (stream : String) (s : GroupSettings) : GroupOptions where
  position := Position.before (some s.startFrom)
  links := holdsLinks stream
  lowerCheckpoint := asSigned s.minCheckpointCount
  upperCheckpoint := asSigned s.maxCheckpointCount
  messageTimeout := s.messageTimeout
  maxRetryCount := asSigned s.maxRetryCount

/-! ## Errors -/

def callError (stream : String) : ServerError → LogError
  | .resourceDeleted => .streamDeleted stream
  | e => .connection e.message

/-- The error of an append. The version that the stream is at is not told. -/
def appendError (stream : String) (expected : Expectation) : ServerError → LogError
  | .wrongExpectedVersion _ _ => .wrongExpectedVersion stream expected none
  | e => callError stream e

/-- The error of a catch-up reader. -/
def readerError (stream : String) : ServerError → LogError
  | .resourceDeleted => .streamDeleted stream
  | e => .subscriptionDropped e.message

/-- The error of a reader of a group. -/
def memberError (e : ServerError) : LogError := .subscriptionDropped e.message

end EventSourcing.Remote
