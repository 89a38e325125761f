import EventSourcing.Domain.Catalog
import EventSourcing.Session.Client

/-!
# Sessions

A session is a client with everything that was opened on it under a name: readers of the log,
repositories, roots and subscriptions. The loops of its subscriptions run in turns whenever
something has happened, until each of them has to wait; the clock only moves when the session is
told to.
-/

namespace EventSourcing

/-- A subscription with the name of its handle. -/
structure Task where
  domain : Domain
  name : String
  subscription : Subscription domain.Event
  /-- The number of its last turn, or of its beginning. -/
  turn : Nat

/-- A reader, and which of the session's servers it was opened on. -/
structure Opened where
  home : Nat
  connection : Connection
  deriving DecidableEq, Repr

structure Session where
  client : Client
  options : SubscriptionOptions
  /-- The servers that nobody can write to any more. -/
  past : List Server
  readers : Table String Opened
  tasks : List Task
  /-- How many turns were given out. -/
  turns : Nat
  repositories : PerKind fun k => Table String k.Repository
  roots : PerKind fun k => Table String k.Root

namespace Session

def start (options : SubscriptionOptions) : Session where
  client := .start 0
  options := options
  past := []
  readers := []
  tasks := []
  turns := 0
  repositories := ⟨[], [], [], []⟩
  roots := ⟨[], [], [], []⟩

/-- A call on the client. -/
def call {α : Type} (s : Session) (f : Client → α × Client) : α × Session :=
  let (a, client) := f s.client
  (a, { s with client := client })

def onServer (s : Session) (f : Server → Server) : Session :=
  { s with client := { s.client with server := f s.client.server } }

def addFault (s : Session) (point : FaultPoint) (error : Option LogError) (times : Nat) : Session :=
  { s with client := { s.client with faults := s.client.faults.add point error times } }

/-! ## Running -/

end Session

namespace Task

/-- Lets a loop take up to so many steps, until it has to wait. -/
def run (client : Client) (t : Task) : Nat → Task × Client
  | 0 => (t, client)
  | n + 1 =>
    match t.subscription.step client with
    | some (subscription, client) => run client { t with subscription := subscription } n
    | none => (t, client)

/-- Whether a loop can take a step. -/
def isReady (client : Client) (t : Task) : Bool := (t.subscription.step client).isSome

/-- Whether a loop has its turn before another: loops on their own go before members of groups, and
who has waited longer goes first. -/
def precedes (t u : Task) : Bool :=
  let rank (t : Task) : Nat := t.subscription.group.isSome.toNat
  rank t < rank u || (rank t = rank u && t.turn < u.turn)

/-- The task that has the next turn among these. -/
def first? : List Task → Option Task
  | [] => none
  | t :: rest => some ((first? rest).elim t fun u => if u.precedes t then u else t)

end Task

namespace Session

/-- The length of a turn: after so many steps a loop lets the others go on. -/
def turnLength : Nat := 128

/-- Gives a task a turn, which is the latest one from then on. -/
def giveTurn (s : Session) (t : Task) : Session :=
  let (u, client) := t.run s.client turnLength
  let u := { u with turn := s.turns }
  { s with
    client := client
    tasks := s.tasks.map fun v => if v.turn = t.turn then u else v
    turns := s.turns + 1 }

/-- Gives turns until every loop waits, or the fuel is used up. -/
def settleWithin : Nat → Session → Session
  | 0, s => s
  | fuel + 1, s =>
    match Task.first? (s.tasks.filter (·.isReady s.client)) with
    | some t => settleWithin fuel (s.giveTurn t)
    | none => s

/-- After so many turns loops are taken for endless. -/
def maxTurns : Nat := 10000000

def settle (s : Session) : Session := s.settleWithin maxTurns

/-- Sets the clock, on the servers of the past as well. -/
def setClock (s : Session) (now : Nat) : Session :=
  let s := s.onServer fun server => { server with now := now }
  { s with past := s.past.map fun server => { server with now := now } }

def now (s : Session) : Nat := s.client.server.now

/-- The first end of a wait until `limit`. -/
def nextDue? (s : Session) (limit : Nat) : Option Nat :=
  ((s.tasks.filterMap fun t => t.subscription.wait.bind (·.due)).filter (· ≤ limit)).min?

/-- Lets waits end one after the other until `limit`; each of them takes fuel. -/
def advanceWithin (limit : Nat) : Nat → Session → Session
  | 0, s => s
  | fuel + 1, s =>
    match s.nextDue? limit with
    | some due => advanceWithin limit fuel (s.setClock (max due s.now)).settle
    | none => (s.setClock limit).settle

/-- Time goes by. -/
def advance (s : Session) (milliseconds : Nat) : Session :=
  s.advanceWithin (s.now + milliseconds) (milliseconds + 2)

/-- Drops the client and starts again with an empty log; readers stay with the log they have. -/
def forget (s : Session) : Session :=
  { s with
    past := s.past ++ [{ s.client.server with closed := true }]
    client := { s.client with server := .start s.now } }

end Session

end EventSourcing
