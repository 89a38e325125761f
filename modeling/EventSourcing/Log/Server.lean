import EventSourcing.Log.Group

/-!
# The log server

A server holds the log, its consumer groups, a clock that others move, and what its readers need to
notice: the epoch of connections, which is raised to drop them all, and a signal, which is raised to
wake the readers of groups. It can be told to turn readers away for a while.
-/

namespace EventSourcing

/-- How often the calls that touch records were served. -/
structure Calls where
  appends : Nat := 0
  reads : Nat := 0
  deletes : Nat := 0
  deriving DecidableEq, Repr

structure Server where
  log : Log
  groups : Table (String × String) Group
  epoch : Nat
  signal : Nat
  /-- How many of the next readers are turned away. -/
  turnAways : Nat
  calls : Calls
  /-- Milliseconds. -/
  now : Nat
  /-- Whether nobody can write any more. -/
  closed : Bool
  deriving Repr

/-- The result of asking a reader once, without waiting. -/
inductive Poll
  | delivery (value : Delivery)
  | ended
  | failed (error : LogError)
  | pending
  deriving DecidableEq, Repr

namespace Server

def start (now : Nat) : Server := ⟨.empty, [], 0, 0, 0, {}, now, false⟩

def wake (s : Server) : Server := { s with signal := s.signal + 1 }

/-- The time that records are stamped with, in seconds. -/
def time (s : Server) : Int := s.now / 1000

@[simp] theorem time_calls (s : Server) (calls : Calls) :
    time { s with calls := calls } = s.time := rfl

/-! ## Records -/

def append (s : Server) (stream : String) (expected : Expectation) (events : List EncodedEvent) :
    Except LogError Nat × Server :=
  let s := { s with calls := { s.calls with appends := s.calls.appends + 1 } }
  match s.log.append stream expected events s.time with
  | .ok (version, log) => (.ok version, { s with log := log }.wake)
  | .error e => (.error e, s)

def read (s : Server) (stream : String) (start : Nat) :
    Except LogError (List StoredRecord) × Server :=
  (s.log.read stream start, { s with calls := { s.calls with reads := s.calls.reads + 1 } })

def version? (s : Server) (stream : String) : Except LogError (Option Nat) × Server :=
  (s.log.version? stream, s)

def tombstone (s : Server) (stream : String) : Except LogError Unit × Server :=
  let s := { s with calls := { s.calls with deletes := s.calls.deletes + 1 } }
  match s.log.tombstone stream s.time with
  | .ok log => (.ok (), { s with log := log }.wake)
  | .error e => (.error e, s)

/-! ## Groups -/

def group? (s : Server) (stream group : String) : Option Group := s.groups.get? (stream, group)

def setGroup (s : Server) (stream group : String) (g : Group) : Server :=
  { s with groups := s.groups.insert (stream, group) g }

/-- Creates a group; one that is there stays as it is. -/
def createGroup (s : Server) (stream group : String) (settings : GroupSettings) : Server :=
  match s.group? stream group with
  | some _ => s
  | none => s.setGroup stream group (.new (.ofName stream) settings)

/-! ## Connections -/

/-- Drops every connection. What was in flight goes back to its group. -/
def disconnectAll (s : Server) : Server :=
  { s with
    groups := s.groups.mapValues Group.recallAll
    epoch := s.epoch + 1 }.wake

/-- Turns away the next readers. -/
def turnAway (s : Server) (count : Nat) : Server := { s with turnAways := count }

/-- Whether a new reader is let in. -/
def letIn (s : Server) : Except LogError Unit × Server :=
  match s.turnAways with
  | 0 => (.ok (), s)
  | n + 1 => (.error (.connection "subscribe refused"), { s with turnAways := n })

/-- What readers of an older epoch find out. -/
def checkEpoch (s : Server) (epoch : Nat) : Except LogError Unit :=
  if s.epoch = epoch then .ok () else .error (.subscriptionDropped "connection reset")

end Server

end EventSourcing
