import EventSourcing.Text.Bytes
import EventSourcing.Text.Prefix

/-!
# Events on their way in and out of the log

An encoded event waits to be appended; a record is a stored event with its positions.
The data of a record is raw bytes as stored, or a decoded event.
-/

namespace EventSourcing

/-- The start of the name of a stream that stands for a hard-deleted one. -/
def tombstoneMark : String := "$$"

/-- The start of the types that the log keeps for its own bookkeeping. -/
def systemMark : String := "$"

structure EncodedEvent where
  eventType : String
  data : Bytes
  metadata : Bytes
  deriving DecidableEq, Repr

abbrev RecordId := Nat

/-- A stored event: `position` is its index in its own stream, `commit` its place in the order of
the whole log. -/
structure Record (α : Type) where
  stream : String
  eventType : String
  id : RecordId
  position : Nat
  commit : Nat
  /-- Seconds. -/
  recordedAt : Int
  data : α
  metadata : Bytes
  deriving DecidableEq, Repr

abbrev StoredRecord := Record Bytes

namespace Record

variable {α β : Type}

/-- The same record with other data. -/
def replaceData (r : Record α) (data : β) : Record β :=
  ⟨r.stream, r.eventType, r.id, r.position, r.commit, r.recordedAt, data, r.metadata⟩

/-- Whether the record is what is left of a hard-deleted stream. -/
def isTombstone (r : Record α) : Bool := Text.hasPrefix tombstoneMark r.stream

/-- Whether the record is bookkeeping of the log. -/
def isSystem (r : Record α) : Bool := Text.hasPrefix systemMark r.eventType

end Record

end EventSourcing
