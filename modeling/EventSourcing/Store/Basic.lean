import EventSourcing.Log.Server
import EventSourcing.Store.Error

/-!
# The event store

A store speaks of streams and their versions, the numbers of their events, and works over anything
that answers the calls of a log. An append goes through only at the version that the writer knows.
-/

namespace EventSourcing

/-- What answers the calls of a log; a call gives its answer and the client after it. -/
class LogClient (σ : Type) where
  append : σ → String → Expectation → List EncodedEvent → Except LogError Nat × σ
  read : σ → String → Nat → Except LogError (List StoredRecord) × σ
  version? : σ → String → Except LogError (Option Nat) × σ
  tombstone : σ → String → Except LogError Unit × σ

instance : LogClient Server where
  append := Server.append
  read := Server.read
  version? := Server.version?
  tombstone := Server.tombstone

namespace Store

variable {σ : Type} [LogClient σ]

/-- The answer of a call in the words of the store. -/
def answer {α : Type} (r : Except LogError α × σ) : Except StoreError α × σ :=
  (r.1.mapError .ofLogError, r.2)

/-- The version of a stream; zero if it does not exist. -/
def version (client : σ) (stream : String) : Except StoreError Nat × σ :=
  let (r, client) := answer (LogClient.version? client stream)
  (r.map (·.getD 0), client)

/-- The version that a rejected append ran into: as reported, or else read in a call of its own. -/
def conflictVersion (client : σ) (stream : String) : Option Nat → Except StoreError Nat × σ
  | some actual => (.ok actual, client)
  | none => version client stream

/-- Appends events to a stream at version `expected`; the version after it. -/
def append (client : σ) (stream : String) (events : List EncodedEvent) (expected : Nat) :
    Except StoreError Nat × σ :=
  if events = [] then (.ok expected, client)
  else
    match LogClient.append client stream (.ofVersion expected) events with
    | (.ok version, client) => (.ok version, client)
    | (.error (.wrongExpectedVersion _ _ reported), client) =>
      match conflictVersion client stream reported with
      | (.ok actual, client) => (.error (.concurrency ⟨stream, expected, actual⟩), client)
      | (.error e, client) => (.error e, client)
    | (.error e, client) => (.error (.ofLogError e), client)

/-- The records of a stream from a version on; none if it does not exist. -/
def read (client : σ) (stream : String) (start : Nat) : Except StoreError (List StoredRecord) × σ :=
  answer (LogClient.read client stream start)

/-- Deletes a stream for good. -/
def delete (client : σ) (stream : String) : Except StoreError Unit × σ :=
  answer (LogClient.tombstone client stream)

end Store

end EventSourcing
