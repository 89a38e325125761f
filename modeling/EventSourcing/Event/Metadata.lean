import EventSourcing.Json.Tree
import EventSourcing.Json.Writer

/-!
# Metadata of an event

A small JSON document beside every payload names the type of the event, so that the event finds its
decoder when the record has no type of its own.
-/

namespace EventSourcing

/-- The content type of JSON payloads. -/
def jsonContentType : String := "application/json"

structure Metadata where
  eventType : String
  aggregateType : Option String
  contentType : String
  deriving DecidableEq, Repr

namespace Metadata

/-- The document written for an event. -/
def forEvent (eventType aggregateType : String) : Metadata :=
  ⟨eventType, some aggregateType, jsonContentType⟩

def encode (m : Metadata) : Bytes :=
  Json.writeObject (
    ("event_type", Json.writeText m.eventType) ::
    (m.aggregateType.map fun t => ("aggregate_type", Json.writeText t)).toList ++
    [("content_type", Json.writeText m.contentType)])

/-- Reads the document; only the content type has a value when it is missing. -/
def decode? (bs : Bytes) : Option Metadata := do
  let tree ← Json.Tree.parse? bs
  match ← tree.fields? ["event_type", "aggregate_type", "content_type"] with
  | [some eventType, aggregateType, contentType] =>
    let eventType ← eventType.text?
    let aggregateType ← match aggregateType with
      | none => some none
      | some t => t.optionalText?
    let contentType ← match contentType with
      | none => some jsonContentType
      | some t => t.text?
    some ⟨eventType, aggregateType, contentType⟩
  | _ => none

end Metadata

end EventSourcing
