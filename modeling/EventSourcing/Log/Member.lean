import EventSourcing.Log.Server

/-!
# Readers of a consumer group

A member reads the records that its group hands out and settles them. It ends when it asks to be
stopped, and fails once connections have been dropped.
-/

namespace EventSourcing

/-- How long a waiting member sleeps before it looks again, in milliseconds. -/
def memberPause : Nat := 25

/-- A reader's connection to a group, opened in an epoch of connections. -/
structure Member where
  stream : String
  group : String
  epoch : Nat
  stopped : Bool
  deriving DecidableEq, Repr

namespace Member

/-- Connects to a group that is there. -/
def connect (s : Server) (stream group : String) : Except LogError Member × Server :=
  match s.letIn with
  | (.error e, s) => (.error e, s)
  | (.ok _, s) =>
    match s.group? stream group with
    | none => (.error (.subscriptionNotFound stream group), s)
    | some _ => (.ok ⟨stream, group, s.epoch, false⟩, s)

/-- Asks for the next record. -/
def poll (s : Server) (m : Member) : Poll × Server :=
  match s.checkEpoch m.epoch with
  | .error e => (.failed e, s)
  | .ok _ =>
    if m.stopped then (.ended, s)
    else
      match s.group? m.stream m.group with
      | none => (.failed (.subscriptionNotFound m.stream m.group), s)
      | some g =>
        match g.poll s.log.entries s.now with
        | (some d, g) => (.delivery d, s.setGroup m.stream m.group g)
        | (none, g) => (if s.closed then .ended else .pending, s.setGroup m.stream m.group g)

/-- Settles records as handled. -/
def ack (s : Server) (m : Member) (ids : List RecordId) : Except LogError Unit × Server :=
  match s.checkEpoch m.epoch with
  | .error e => (.error e, s)
  | .ok _ =>
    match s.group? m.stream m.group with
    | none => (.error (.subscriptionNotFound m.stream m.group), s)
    | some g => (.ok (), s.setGroup m.stream m.group (g.ack ids))

/-- Hands records back. -/
def nack (s : Server) (m : Member) (ids : List RecordId) (action : Refusal) :
    Except LogError Unit × Member × Server :=
  match s.checkEpoch m.epoch with
  | .error e => (.error e, m, s)
  | .ok _ =>
    match s.group? m.stream m.group with
    | none => (.error (.subscriptionNotFound m.stream m.group), m, s)
    | some g =>
      let stops := action = .stop ∧ ids.any g.isOutstanding
      (.ok (), { m with stopped := m.stopped || stops },
        (s.setGroup m.stream m.group (g.nack ids action)).wake)

end Member

end EventSourcing
