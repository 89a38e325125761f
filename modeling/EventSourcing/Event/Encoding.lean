import EventSourcing.Event.Metadata
import EventSourcing.Event.Record

/-!
# Encoding and decoding events

A domain of events has stable type names and an encoding. A stored record is decoded by its type;
a record without one takes the type that its metadata names.
-/

namespace EventSourcing

/-! ## Errors -/

inductive DecodeError
  | emptyPayload (eventType : String)
  | unknownType (eventType : String)
  | malformed (eventType : String)
  deriving DecidableEq, Repr

/-- The text of an error; what is wrong inside a malformed payload is not told. -/
def DecodeError.message : DecodeError → String
  | .emptyPayload t => "empty payload for event type '" ++ t ++ "'"
  | .unknownType t => "unknown event type '" ++ t ++ "'"
  | .malformed t => "malformed payload for event type '" ++ t ++ "'"

structure EncodeError where
  eventType : String
  reason : String
  deriving DecidableEq, Repr

def EncodeError.message (e : EncodeError) : String :=
  "failed to encode '" ++ e.eventType ++ "': " ++ e.reason

/-! ## Domains of events -/

/-- What decoding gives: an event, a payload that is known and left out on purpose, or an error. -/
inductive Decoded (α : Type)
  | event (value : α)
  | skip
  | error (error : DecodeError)
  deriving DecidableEq, Repr

/-- Events with a stable type name and an encoding of their payload. -/
class DomainEvent (E : Type) where
  eventType : E → String
  encode : E → Except EncodeError Bytes
  decode : String → Bytes → Decoded E

/-- Reads a JSON payload with `read`. -/
def Decoded.ofJson {E : Type} (eventType : String) (data : Bytes) (read : Json.Tree → Option E) :
    Decoded E :=
  match (Json.Tree.parse? data).bind read with
  | some value => .event value
  | none => .error (.malformed eventType)

section

variable {E : Type} [DomainEvent E]

/-- The event with its payload and metadata encoded. -/
def EncodedEvent.ofEvent (event : E) (aggregateType : String) :
    Except EncodeError EncodedEvent := do
  let eventType := DomainEvent.eventType event
  let data ← DomainEvent.encode event
  return ⟨eventType, data, (Metadata.forEvent eventType aggregateType).encode⟩

end

/-! ## Records -/

/-- The type of the record, or the one that its metadata names. -/
def Record.effectiveType? (r : Record Bytes) : Option String :=
  if r.eventType ≠ "" then some r.eventType
  else
    match Metadata.decode? r.metadata with
    | some m => if m.eventType ≠ "" then some m.eventType else none
    | none => none

/-- Decodes the payload of a record. -/
def Record.decode (E : Type) [DomainEvent E] (r : Record Bytes) : Decoded (Record E) :=
  match r.effectiveType? with
  | none => .error (.unknownType "")
  | some eventType =>
    if r.data = [] then .error (.emptyPayload eventType)
    else
      match DomainEvent.decode eventType r.data with
      | .event event => .event (r.replaceData event)
      | .skip => .skip
      | .error e => .error e

/-- Decoding a record changes nothing but its data. -/
theorem Record.decode_eq_event {E : Type} [DomainEvent E] {r : StoredRecord} {record : Record E}
    (h : r.decode E = .event record) : ∃ event, record = r.replaceData event := by
  unfold Record.decode at h
  split at h
  · cases h
  · split at h
    · cases h
    · split at h
      · exact ⟨_, (Decoded.event.inj h).symm⟩
      · cases h
      · cases h

end EventSourcing
