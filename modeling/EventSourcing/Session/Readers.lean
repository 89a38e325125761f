import EventSourcing.Session.Basic

/-!
# The readers of a session

Readers are opened under a name and asked record by record, without waiting. Each of them works on
the server that it was opened on.
-/

namespace EventSourcing.Session

/-- Opens a reader; on success the name stands for it. -/
def openReader (s : Session) (name stream : String) (group : Option String) (start : Option Nat) :
    Except LogError Unit × Session :=
  match s.call fun c => c.connect stream group start with
  | (.ok connection, s) =>
    (.ok (), { s with readers := s.readers.insert name ⟨s.past.length, connection⟩ })
  | (.error e, s) => (.error e, s)

/-- A call on a client of the server with this number. -/
def callAt {α : Type} (s : Session) (home : Nat) (f : Client → α × Client) : α × Session :=
  match s.past[home]? with
  | none => s.call f
  | some server =>
    let (a, client) := f { s.client with server := server }
    (a, { s with
      past := s.past.set home client.server
      client := { s.client with faults := client.faults } })

/-- Settles records through a reader of a group. -/
def ackReader (s : Session) (home : Nat) (m : Member) (ids : List RecordId) :
    Except LogError Unit × Session :=
  s.callAt home fun c => c.ack m ids

/-- Hands records back through a named reader of a group; none if there is no such reader. -/
def nackReader? (s : Session) (name : String) (ids : List RecordId) (action : Refusal) :
    Option (Except LogError Unit × Session) :=
  match s.readers.get? name with
  | some ⟨home, .member m⟩ =>
    let ((r, m), s) := s.callAt home fun c =>
      let (r, m, c) := c.nack m ids action
      ((r, m), c)
    some (r, { s with readers := s.readers.insert name ⟨home, .member m⟩ })
  | _ => none

/-- Settles records through a named reader of a group; none if there is no such reader. -/
def ackReader? (s : Session) (name : String) (ids : List RecordId) :
    Option (Except LogError Unit × Session) :=
  match s.readers.get? name with
  | some ⟨home, .member m⟩ => some (s.ackReader home m ids)
  | _ => none

/-- Asks a reader once. -/
def pollReader (s : Session) (name : String) (opened : Opened) : Poll × Connection × Session :=
  let ((p, connection), s) := s.callAt opened.home fun c =>
    let (p, connection, c) := c.ask opened.connection
    ((p, connection), c)
  (p, connection, { s with readers := s.readers.insert name ⟨opened.home, connection⟩ })

/-- Settles a record through the reader that has handed it out, if that is a reader of a group. -/
def settleDelivery (s : Session) (home : Nat) (connection : Connection) (d : Delivery) :
    Except LogError Unit × Session :=
  match connection with
  | .member m => s.ackReader home m [d.ackId]
  | .catchUp _ => (.ok (), s)

/-- How a row of questions has ended. -/
inductive Reading
  /-- As many records as were asked for. -/
  | more
  | pending
  | ended
  | failed (error : LogError)
  deriving DecidableEq, Repr

/-- Asks a reader for up to so many records, and settles each of them if asked to. -/
def readMany (s : Session) (name : String) (settles : Bool) :
    Nat → Option (List Delivery × Reading × Session)
  | 0 => (s.readers.get? name).map fun _ => ([], .more, s)
  | count + 1 => do
    let opened ← s.readers.get? name
    match s.pollReader name opened with
    | (.delivery d, connection, s) =>
      match if settles then s.settleDelivery opened.home connection d else (.ok (), s) with
      | (.ok _, s) =>
        let (ds, reading, s) ← s.readMany name settles count
        return (d :: ds, reading, s)
      | (.error e, s) => return ([d], .failed e, s)
    | (.ended, _, s) => return ([], .ended, s)
    | (.failed e, _, s) => return ([], .failed e, s)
    | (.pending, _, s) => return ([], .pending, s)

end EventSourcing.Session
