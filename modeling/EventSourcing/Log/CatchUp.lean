import EventSourcing.Log.Server

/-!
# Catch-up readers

A catch-up reader first gets the records that its scope holds when it is opened, from a position
on, and then every record of the scope that is written. It follows what is written through a feed
of bounded length: who falls further behind is told how many records the feed has lost.
-/

namespace EventSourcing

/-- How many entries the live feed holds. -/
def feedCapacity : Nat := 1024

/-- A catch-up reader, opened in an epoch of connections. -/
structure CatchUp where
  scope : Scope
  /-- What is left of what the log held when the reader was opened. -/
  backlog : List Delivery
  /-- The place of the next unread entry among all that were written. -/
  next : Nat
  epoch : Nat
  deriving DecidableEq, Repr

namespace CatchUp

/-- Opens a reader on a stream, from a position or from the beginning. -/
def openAt (s : Server) (stream : String) (start : Option Nat) : Except LogError CatchUp × Server :=
  match s.letIn with
  | (.error e, s) => (.error e, s)
  | (.ok _, s) =>
    let scope := Scope.ofName stream
    let backlog := (s.log.entriesFrom scope (start.getD 0)).map fun (p, e) => .first p e.record
    (.ok ⟨scope, backlog, s.log.written.size, s.epoch⟩, s)

/-- Reads the live feed up to the next entry of the scope. -/
def pollFeed (s : Server) (c : CatchUp) : Poll × CatchUp :=
  let unread := s.log.written.size - c.next
  if feedCapacity < unread then
    let lost := unread - feedCapacity
    (.failed (.subscriptionDropped ("reader lagged by " ++ toString lost ++ " records")),
      { c with next := c.next + lost })
  else
    let entries := (s.log.written.extract c.next).toList
    let others := entries.takeWhile fun e => (c.scope.position? e).isNone
    match entries.drop others.length with
    | [] => (if s.closed then .ended else .pending, { c with next := s.log.written.size })
    | e :: _ =>
      (.delivery (.first ((c.scope.position? e).getD 0) e.record),
        { c with next := c.next + others.length + 1 })

/-- Asks for the next record. -/
def poll (s : Server) (c : CatchUp) : Poll × CatchUp :=
  match s.checkEpoch c.epoch with
  | .error e => (.failed e, c)
  | .ok _ =>
    match c.backlog with
    | d :: rest => (.delivery d, { c with backlog := rest })
    | [] => c.pollFeed s

end CatchUp

end EventSourcing
