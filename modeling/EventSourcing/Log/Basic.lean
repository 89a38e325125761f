import EventSourcing.Event.Record
import EventSourcing.Log.Error
import EventSourcing.Log.Scope
import EventSourcing.Table

/-!
# The log

All records of all streams stand in one list, in the order in which they were written. A record of
a stream with a category also has a position within that category. Deleting a stream takes its
records out of the list and puts a mark at its end; `written` keeps all that was ever put in, for
those who follow the log live.
-/

namespace EventSourcing

/-- A record, with its category and its position there. -/
structure Entry where
  record : StoredRecord
  category : Option (String × Nat)
  deriving DecidableEq, Repr

/-- The position of an entry within a scope, if it belongs to it. -/
def Scope.position? (entry : Entry) : Scope → Option Nat
  | .all => some entry.record.commit
  | .category name =>
    match entry.category with
    | some (own, place) => if own = name then some place else none
    | none => none
  | .stream name => if entry.record.stream = name then some entry.record.position else none

/-- A record handed to a subscriber: `position` is its place in what is subscribed to, `ackId` is
what the subscriber hands back to settle it. -/
structure Delivery where
  record : StoredRecord
  position : Nat
  ackId : RecordId
  retryCount : Nat
  deriving DecidableEq, Repr

/-- The first delivery of a record. -/
def Delivery.first (position : Nat) (record : StoredRecord) : Delivery :=
  ⟨record, position, record.id, 0⟩

/-- A log with what it needs to go on. -/
structure Log where
  /-- What can be read. -/
  entries : List Entry
  /-- All that was ever written. -/
  written : Array Entry
  /-- The number of events of every stream that has been written. -/
  versions : Table String Nat
  deleted : List String
  /-- The next position within every category. -/
  heads : Table String Nat
  nextCommit : Nat
  deriving Repr

namespace Log

def empty : Log := ⟨[], #[], [], [], [], 0⟩

/-- The type of the mark that a deleted stream leaves. -/
def streamDeletedType : String := "$streamDeleted"

/-! ## Writing -/

/-- The entry that the next record of a stream makes. -/
def nextEntry (log : Log) (stream : String) (position : Nat) (time : Int) (event : EncodedEvent) :
    Entry where
  record := ⟨stream, event.eventType, log.nextCommit, position, log.nextCommit, time, event.data,
    event.metadata⟩
  category := (streamCategory? stream).map fun c => (c, (log.heads.get? c).getD 0)

/-- Puts one record at the end. -/
def push (log : Log) (stream : String) (position : Nat) (time : Int) (event : EncodedEvent) : Log :=
  let entry := log.nextEntry stream position time event
  { log with
    entries := log.entries ++ [entry]
    written := log.written.push entry
    heads := match entry.category with
      | some (category, place) => log.heads.insert category (place + 1)
      | none => log.heads
    nextCommit := log.nextCommit + 1 }

/-- Puts events at the end, at consecutive positions of their stream. -/
def pushAll (log : Log) (stream : String) (position : Nat) (time : Int) : List EncodedEvent → Log
  | [] => log
  | event :: events =>
    (log.push stream position time event).pushAll stream (position + 1) time events

/-- Appends events to a stream that is as expected; the version of the stream after it. -/
def append (log : Log) (stream : String) (expected : Expectation) (events : List EncodedEvent)
    (time : Int) : Except LogError (Nat × Log) :=
  if stream ∈ log.deleted then .error (.streamDeleted stream)
  else
    let existing := log.versions.get? stream
    let version := existing.getD 0
    if expected.Matches version then
      let next := version + events.length
      let log := log.pushAll stream version time events
      let versions := if events = [] then log.versions else log.versions.insert stream next
      .ok (next, { log with versions := versions })
    else .error (.wrongExpectedVersion stream expected existing)

/-- Deletes a stream for good and leaves a mark. -/
def tombstone (log : Log) (stream : String) (time : Int) : Except LogError Log :=
  if stream ∈ log.deleted then .error (.streamDeleted stream)
  else
    let log := { log with
      entries := log.entries.filter fun e => e.record.stream ≠ stream
      versions := log.versions.erase stream
      deleted := stream :: log.deleted }
    .ok (log.push (tombstoneMark ++ stream) 0 time ⟨streamDeletedType, [], []⟩)

/-! ## Reading -/

/-- The entries of a scope from a position on, each with its position. -/
def entriesFrom (log : Log) (scope : Scope) (start : Nat) : List (Nat × Entry) :=
  log.entries.filterMap fun e =>
    match scope.position? e with
    | some p => if start ≤ p then some (p, e) else none
    | none => none

/-- The records of a stream, or of the projection that the name stands for. -/
def read (log : Log) (stream : String) (start : Nat) : Except LogError (List StoredRecord) :=
  if stream ∈ log.deleted then .error (.streamDeleted stream)
  else .ok ((log.entriesFrom (.ofName stream) start).map fun e => e.2.record)

/-- The number of events of a stream; none if it was never written. -/
def version? (log : Log) (stream : String) : Except LogError (Option Nat) :=
  if stream ∈ log.deleted then .error (.streamDeleted stream)
  else .ok (log.versions.get? stream)

end Log

end EventSourcing
