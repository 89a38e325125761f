import EventSourcing.Remote.Address
import EventSourcing.Remote.Client
import EventSourcing.Remote.Pipe
import EventSourcing.Session.Readers

/-!
# Sessions with a scripted server

The server of such a session answers from a script and remembers what it was asked. Readers are
opened under a name; each has a stream of records, and the readers of groups a handle for commands,
both of which can be dropped.
-/

namespace EventSourcing.Remote

/-- A server that answers from a script. -/
structure Script where
  replies : List (Except ServerError Reply)
  calls : List Call

/-- Answers with the next reply; subscribing takes none, and where none is left the connection is
closed. -/
def Script.request (s : Script) (call : Call) : Except ServerError Reply × Script :=
  let s := { s with calls := s.calls ++ [call] }
  match call, s.replies with
  | .subscribe _ _ _, _ => (.ok .done, s)
  | _, [] => (.error .connectionClosed, s)
  | _, reply :: rest => (reply, { s with replies := rest })

instance : Responder Script := ⟨Script.request⟩

inductive Reader
  | feed (feed : Feed) (dropped : Bool)
  | pipe (pipe : Pipe)

namespace Reader

/-- Adds items to what the server has to give. -/
def add (items : List Item) : Reader → Reader
  | .feed f dropped => .feed { f with items := f.items ++ items } dropped
  | .pipe p => .pipe { p with items := p.items ++ items }

/-- Lets the carrier of a pipe run. -/
def settle : Reader → Reader
  | .feed f dropped => .feed f dropped
  | .pipe p => .pipe p.settle

/-- Asks for a record; none if the stream has been dropped. -/
def next? : Reader → Option (Poll × Reader)
  | .feed f false =>
    let (r, f) := f.next
    some (r, .feed f false)
  | .feed _ true => none
  | .pipe p =>
    if p.readerGone then none
    else
      let (r, p) := p.next
      some (r, .pipe p)

/-- Drops the stream of records; the flag tells whether it was there. -/
def dropStream : Reader → Bool × Reader
  | .feed f dropped => (!dropped, .feed f true)
  | .pipe p => (!p.readerGone, .pipe { p with readerGone := true })

/-- Drops the handle for commands; the flag tells whether it was there. -/
def dropCommands : Reader → Bool × Reader
  | .feed f dropped => (false, .feed f dropped)
  | .pipe p => (!p.commandsGone, .pipe { p with commandsGone := true })

end Reader

structure Session where
  client : Client Script
  readers : Table String Reader

namespace Session

def start : Session := ⟨⟨⟨[], []⟩⟩, []⟩

/-- Gives the server its replies for the next step. -/
def prepare (s : Session) (replies : List (Except ServerError Reply)) : Session :=
  { s with client := ⟨⟨replies, []⟩⟩ }

/-- Lets all carriers run. -/
def settle (s : Session) : Session := { s with readers := s.readers.mapValues Reader.settle }

/-- A call on the client. -/
def call {α : Type} (s : Session) (f : Client Script → α × Client Script) : α × Session :=
  let (a, client) := f s.client
  (a, { s with client := client })

def setReader (s : Session) (name : String) (r : Reader) : Session :=
  { s with readers := s.readers.insert name r }

def openFeed (s : Session) (name stream : String) (start : Option Nat) (items : List Item) :
    Session :=
  { s with client := s.client.subscribe stream start }.setReader name (.feed ⟨stream, items⟩ false)

def openPipe (s : Session) (name stream group : String) (bufferSize : Nat) (items : List Item) :
    Except LogError Unit × Session :=
  match s.call fun c => c.connect stream group bufferSize with
  | (.ok _, s) => (.ok (), s.setReader name (.pipe (.start bufferSize items)))
  | (.error e, s) => (.error e, s)

/-- Asks a reader for up to so many records; none if its stream is not there. Carriers run after
each of them. -/
def readMany (s : Session) (name : String) :
    Nat → Option (List Delivery × Session.Reading × Session)
  | 0 => do
    let _ ← (← s.readers.get? name).next?
    return ([], .more, s)
  | count + 1 => do
    let (r, reader) ← (← s.readers.get? name).next?
    let s := s.setReader name reader
    match r with
    | .delivery d =>
      let (ds, reading, s) ← s.settle.readMany name count
      return (d :: ds, reading, s)
    | .failed e => return ([], .failed e, s)
    | .ended => return ([], .ended, s)
    | .pending => return ([], .pending, s)

/-- Puts a command to the server through the carrier of a pipe; none if there is no handle for
that. -/
def settleRecords? (s : Session) (name : String) (command : Command) :
    Option (Except LogError Unit × Session) :=
  match s.readers.get? name with
  | some (.pipe p) =>
    if p.commandsGone then none
    else if p.stopped then some (Pipe.commandResult false none, s)
    else
      let (answer, s) := s.call fun c => c.settle command
      some (Pipe.commandResult true (some answer), s)
  | _ => none

/-- Drops a part of a reader; the flag tells whether it was there. -/
def dropPart (s : Session) (name : String) (part : Reader → Bool × Reader) : Bool × Session :=
  match s.readers.get? name with
  | none => (false, s)
  | some r =>
    let (dropped, r) := part r
    (dropped, s.setReader name r)

end Session

end EventSourcing.Remote
