import EventSourcing.Store.Basic
import EventSourcing.Subscription.Basic

/-!
# A client that fails on demand

A client passes calls on to a server unless a fault is queued for them. Each fault is used up by one
call, in the order in which they were queued.
-/

namespace EventSourcing

/-- Where a fault strikes. -/
inductive FaultPoint
  | append
  | read
  | version
  | tombstone
  /-- Opening a catch-up reader. -/
  | subscribe
  /-- Joining a consumer group. -/
  | connect
  | createGroup
  | ack
  | nack
  /-- Asking a reader for a record. -/
  | next
  /-- The version that a rejected append reports. -/
  | hideActual
  deriving DecidableEq, Repr

/-- The faults that wait at each point. A fault without an error ends a reader in order, or hides
what would be reported. -/
abbrev Faults := Table FaultPoint (List (Option LogError))

namespace Faults

/-- Queues a fault a number of times. -/
def add (f : Faults) (point : FaultPoint) (error : Option LogError) (times : Nat) : Faults :=
  f.insert point ((f.get? point).getD [] ++ List.replicate times error)

/-- The next fault at a point. -/
def take? (f : Faults) (point : FaultPoint) : Option (Option LogError × Faults) :=
  match f.get? point with
  | some (e :: rest) => some (e, f.insert point rest)
  | _ => none

end Faults

structure Client where
  server : Server
  faults : Faults
  deriving Repr

namespace Client

def start (now : Nat) : Client := ⟨.start now, []⟩

/-- Passes a call on unless it is to fail. -/
def guarded {α : Type} (c : Client) (point : FaultPoint)
    (call : Client → Except LogError α × Client) : Except LogError α × Client :=
  match c.faults.take? point with
  | some (some e, faults) => (.error e, { c with faults := faults })
  | some (none, faults) => call { c with faults := faults }
  | none => call c

/-- A call on the server. -/
def onServer {α : Type} (c : Client) (call : Server → α × Server) : α × Client :=
  let (a, server) := call c.server
  (a, { c with server := server })

/-- Appends; the version that a rejection reports may be hidden. -/
def append (c : Client) (stream : String) (expected : Expectation) (events : List EncodedEvent) :
    Except LogError Nat × Client :=
  c.guarded .append fun c =>
    match c.onServer fun s => s.append stream expected events with
    | (.error (.wrongExpectedVersion stream expected actual), c) =>
      match c.faults.take? .hideActual with
      | some (_, faults) =>
        (.error (.wrongExpectedVersion stream expected none), { c with faults := faults })
      | none => (.error (.wrongExpectedVersion stream expected actual), c)
    | r => r

def createGroup (c : Client) (stream group : String) (settings : GroupSettings) :
    Except LogError Unit × Client :=
  c.guarded .createGroup fun c =>
    (.ok (), { c with server := c.server.createGroup stream group settings })

/-- Opens a reader. -/
def connect (c : Client) (stream : String) (group : Option String) (start : Option Nat) :
    Except LogError Connection × Client :=
  c.guarded (if group.isNone then .subscribe else .connect) fun c =>
    c.onServer fun s => Connection.openOn s stream group start

/-- Asks a reader once more for the record that it was asked for. -/
def askAgain (c : Client) (connection : Connection) : Poll × Connection × Client :=
  let (p, connection, server) := connection.poll c.server
  (p, connection, { c with server := server })

/-- Asks a reader for a record. -/
def ask (c : Client) (connection : Connection) : Poll × Connection × Client :=
  match c.faults.take? .next with
  | some (some e, faults) => (.failed e, connection, { c with faults := faults })
  | some (none, faults) => (.ended, connection, { c with faults := faults })
  | none => c.askAgain connection

def ack (c : Client) (m : Member) (ids : List RecordId) : Except LogError Unit × Client :=
  c.guarded .ack fun c => c.onServer fun s => m.ack s ids

def nack (c : Client) (m : Member) (ids : List RecordId) (action : Refusal) :
    Except LogError Unit × Member × Client :=
  let (r, c) := c.guarded .nack fun c =>
    c.onServer fun s =>
      let (r, m, s) := m.nack s ids action
      (r.map fun _ => m, s)
  (r.map fun _ => (), (r.toOption).getD m, c)

end Client

instance : LogClient Client where
  append := Client.append
  read c stream start := c.guarded .read fun c => c.onServer fun s => s.read stream start
  version? c stream := c.guarded .version fun c => c.onServer fun s => s.version? stream
  tombstone c stream := c.guarded .tombstone fun c => c.onServer fun s => s.tombstone stream

instance : Broker Client where
  createGroup := Client.createGroup
  connect := Client.connect
  ask := Client.ask
  askAgain := Client.askAgain
  ack := Client.ack
  nack := Client.nack
  signal c := c.server.signal
  now c := c.server.now

end EventSourcing
