import EventSourcing.Log.Server
import EventSourcing.Remote.Convert

/-!
# From the server to a reader

What a subscription on the server yields reaches its reader in one of two ways. A catch-up reader
takes it item by item (`Feed`). The reader of a group gets it through a pipe: a carrier takes an
item when it holds none, puts what it holds into a bounded queue when there is room, and passes the
reader's commands on in between. A failure is the last thing that goes into the queue.
-/

namespace EventSourcing.Remote

/-! ## Catch-up readers -/

/-- What a catch-up reader has not taken yet. -/
structure Feed where
  stream : String
  items : List Item

def Feed.next (f : Feed) : Poll × Feed :=
  match f.items with
  | [] => (.pending, f)
  | .ok r :: rest => (.delivery (r.delivery 0), { f with items := rest })
  | .error e :: rest => (.failed (readerError f.stream e), { f with items := rest })

/-! ## Readers of a group -/

/-- The way from the server to the reader of a group, and who is still there. -/
structure Pipe where
  /-- What the server has to give. -/
  items : List Item
  /-- What the carrier holds. -/
  held : Option (Except LogError Delivery)
  /-- What the reader has not taken yet. -/
  queue : List (Except LogError Delivery)
  capacity : Nat
  readerGone : Bool
  commandsGone : Bool
  /-- Whether the carrier has come to its end. -/
  stopped : Bool

namespace Pipe

def start (bufferSize : Nat) (items : List Item) : Pipe :=
  ⟨items, none, [], max bufferSize 1, false, false, false⟩

/-- What an item of the server is to the reader. -/
def convert : Item → Except LogError Delivery
  | .ok r => .ok (r.delivery 0)
  | .error e => .error (memberError e)

/-! ### The carrier -/

/-- The carrier comes to its end; what it holds is lost. -/
def stop (p : Pipe) : Pipe := { p with held := none, stopped := true }

/-- The carrier takes an item. -/
def pull? (p : Pipe) : Option Pipe :=
  match p.held, p.items with
  | none, item :: rest => some { p with items := rest, held := some (convert item) }
  | _, _ => none

/-- The carrier gets rid of what it holds. It ends if that was a failure, or nobody is there. -/
def forward? (p : Pipe) : Option Pipe :=
  match p.held with
  | none => none
  | some result =>
    if p.readerGone then some p.stop
    else if p.queue.length < p.capacity then
      let p := { p with held := none, queue := p.queue ++ [result] }
      match result with
      | .ok _ => some p
      | .error _ => some p.stop
    else none

/-- The carrier notices that no command will come any more. -/
def abandon? (p : Pipe) : Option Pipe := if p.commandsGone then some p.stop else none

/-- A step of the carrier; none if it has ended or has to wait. -/
def step? (p : Pipe) : Option Pipe :=
  if p.stopped then none else p.abandon?.or (p.forward?.or p.pull?)

/-- Steps until the carrier has to wait; every step takes fuel. -/
def settleWithin : Nat → Pipe → Pipe
  | 0, p => p
  | fuel + 1, p =>
    match p.step? with
    | none => p
    | some p => settleWithin fuel p

/-- Every item takes two steps, and two more may follow. -/
def settle (p : Pipe) : Pipe := p.settleWithin (2 * p.items.length + 3)

/-! ### The reader -/

/-- What readers are told once their carrier has ended. -/
def closedError : LogError := .subscriptionDropped "persistent subscription closed"

def next (p : Pipe) : Poll × Pipe :=
  match p.queue with
  | .ok d :: rest => (.delivery d, { p with queue := rest })
  | .error e :: rest => (.failed e, { p with queue := rest })
  | [] => (if p.stopped then .failed closedError else .pending, p)

/-- A pipe that holds what it holds, with a carrier that gives nothing more. -/
def ofQueue (queue : List (Except LogError Delivery)) (stopped : Bool) : Pipe :=
  { start 1 [] with queue := queue, stopped := stopped }

/-- What a command comes to: the answer of whoever takes it, if somebody does and answers. -/
def commandResult (taken : Bool) (answer : Option (Except LogError Unit)) : Except LogError Unit :=
  if taken then answer.getD (.error closedError) else .error closedError

end Pipe

end EventSourcing.Remote
