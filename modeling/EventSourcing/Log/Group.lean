import EventSourcing.Log.Basic

/-!
# Consumer groups

A group hands the records of its scope to its readers, each record to one of them, and waits until
it is settled. A record that a group has handed out is in flight, waits to be handed out again, is
parked, or is settled: acknowledged or skipped. The cursor is the first position that has not been
handed out.
-/

namespace EventSourcing

/-- What a reader wants to be done with a record that it could not handle. -/
inductive Refusal
  /-- Put it aside. -/
  | park
  /-- Hand it out again. -/
  | retry
  /-- Settle it without handling it. -/
  | skip
  /-- Hand it out again, and end this reader's connection. -/
  | stop
  deriving DecidableEq, Repr

structure GroupSettings where
  /-- The first position that a new group hands out. -/
  startFrom : Nat := 0
  minCheckpointCount : Nat := 1
  maxCheckpointCount : Nat := 1
  /-- Milliseconds after which a record in flight is handed out again. -/
  messageTimeout : Nat := 30000
  /-- How often a record is handed out again before it is parked. -/
  maxRetryCount : Nat := 10
  deriving DecidableEq, Repr

/-- A delivery in flight. -/
structure Sent where
  delivery : Delivery
  /-- When it was handed out. -/
  sentAt : Nat
  deriving DecidableEq, Repr

/-- What a group knows of the records of its scope. -/
structure Group where
  scope : Scope
  settings : GroupSettings
  /-- The first position that was never handed out. -/
  cursor : Nat
  sent : List Sent
  /-- What waits to be handed out again, in this order. -/
  retry : List Delivery
  parked : List Delivery
  /-- The ids acknowledged last, the oldest first. -/
  acknowledged : List RecordId
  /-- The ids skipped last, the oldest first. -/
  skipped : List RecordId
  deriving DecidableEq, Repr

/-- How many settled ids a group remembers. -/
def historyLength : Nat := 1024

/-- Adds an id to a history, which forgets its oldest id when it is full. -/
def addSettled (history : List RecordId) (id : RecordId) : List RecordId :=
  (if history.length = historyLength then history.drop 1 else history) ++ [id]

/-- The delivery of the same record once more. -/
def Delivery.again (d : Delivery) : Delivery := { d with retryCount := d.retryCount + 1 }

namespace Group

def new (scope : Scope) (settings : GroupSettings) : Group :=
  ⟨scope, settings, settings.startFrom, [], [], [], [], []⟩

/-- Whether the delivery may not be repeated. -/
def isSpent (g : Group) (d : Delivery) : Bool := g.settings.maxRetryCount ≤ d.retryCount

/-! ## Handing out -/

def dropSent (g : Group) (id : RecordId) : Group :=
  { g with sent := g.sent.filter fun f => f.delivery.ackId ≠ id }

/-- Notes that a delivery goes out now. -/
def handOut (g : Group) (d : Delivery) (now : Nat) : Group :=
  { g with sent := (g.dropSent d.ackId).sent ++ [⟨d, now⟩] }

/-- Hands out the first delivery of the retry queue that may be repeated; those before it are
parked. -/
def pollRetry (g : Group) (now : Nat) : Option Delivery × Group :=
  let spent := (g.retry.takeWhile g.isSpent).map Delivery.again
  let parked := { g with parked := g.parked ++ spent }
  match g.retry.dropWhile g.isSpent with
  | [] => (none, { parked with retry := [] })
  | d :: rest => (some d.again, { parked with retry := rest }.handOut d.again now)

/-- The lowest record whose time in flight is over. -/
def expired? (g : Group) (now : Nat) : Option Sent :=
  (g.sent.filter fun f => g.settings.messageTimeout ≤ now - f.sentAt).minOn? (·.delivery.position)

/-- Hands a record whose time is over out again, or parks it and hands out nothing. -/
def pollExpired (g : Group) (f : Sent) (now : Nat) : Option Delivery × Group :=
  let g' := g.dropSent f.delivery.ackId
  if g.isSpent f.delivery then (none, { g' with parked := g'.parked ++ [f.delivery.again] })
  else (some f.delivery.again, g'.handOut f.delivery.again now)

/-- The first entry of the scope at the cursor or above. -/
def next? (g : Group) (entries : List Entry) : Option (Nat × Entry) :=
  entries.findSome? fun e =>
    match g.scope.position? e with
    | some p => if g.cursor ≤ p then some (p, e) else none
    | none => none

/-- Hands out the next record that was never handed out. -/
def pollNew (g : Group) (entries : List Entry) (now : Nat) : Option Delivery × Group :=
  match g.next? entries with
  | none => (none, g)
  | some (position, entry) =>
    let d := Delivery.first position entry.record
    (some d, { g with cursor := position + 1 }.handOut d now)

/-- The next delivery: what was handed back, else what was never answered in time, else what is
new. -/
def poll (g : Group) (entries : List Entry) (now : Nat) : Option Delivery × Group :=
  match g.pollRetry now with
  | (some d, g) => (some d, g)
  | (none, g) =>
    match g.expired? now with
    | some f => g.pollExpired f now
    | none => g.pollNew entries now

/-! ## Taking back -/

/-- Takes an unsettled delivery out of the group. -/
def takeBack? (g : Group) (id : RecordId) : Option (Delivery × Group) :=
  match g.sent.find? fun f => f.delivery.ackId = id with
  | some f => some (f.delivery, g.dropSent id)
  | none =>
    match g.retry.find? fun d => d.ackId = id with
    | some d => some (d, { g with retry := g.retry.eraseP fun d => d.ackId = id })
    | none => none

def ackOne (g : Group) (id : RecordId) : Group :=
  match g.takeBack? id with
  | some (_, g) => { g with acknowledged := addSettled g.acknowledged id }
  | none => g

/-- Settles records as handled; ids that are not outstanding count for nothing. -/
def ack (g : Group) (ids : List RecordId) : Group := ids.foldl ackOne g

def nackOne (action : Refusal) (g : Group) (id : RecordId) : Group :=
  match g.takeBack? id with
  | none => g
  | some (d, g) =>
    match action with
    | .park => { g with parked := g.parked ++ [d] }
    | .retry => { g with retry := g.retry ++ [d] }
    | .skip => { g with skipped := addSettled g.skipped id }
    | .stop => { g with retry := d :: g.retry }

/-- Does with records as the reader wants; ids that are not outstanding count for nothing. -/
def nack (g : Group) (ids : List RecordId) (action : Refusal) : Group :=
  ids.foldl (nackOne action) g

/-- Whether an id is outstanding. -/
def isOutstanding (g : Group) (id : RecordId) : Bool := (g.takeBack? id).isSome

/-- Puts all that is in flight in front of the retry queue, in the order of positions. -/
def recallAll (g : Group) : Group :=
  let pending := (g.sent.map (·.delivery)).mergeSort fun a b => a.position ≤ b.position
  { g with sent := [], retry := pending ++ g.retry }

/-- The number of records handed out and not settled. -/
def outstanding (g : Group) : Nat := g.sent.length + g.retry.length

end Group

end EventSourcing
