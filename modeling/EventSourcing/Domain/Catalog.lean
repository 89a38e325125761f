import EventSourcing.Domain.Account
import EventSourcing.Domain.Note
import EventSourcing.Domain.Order
import EventSourcing.Repository.Basic

/-!
# The catalog of domains

All domains of events and all kinds of aggregates, as values, so that a session can hold some of
each.
-/

namespace EventSourcing

inductive Domain
  | order
  | account
  | note
  deriving DecidableEq, Repr

namespace Domain

abbrev Event : Domain → Type
  | order => OrderEvent
  | account => AccountEvent
  | note => NoteEvent

instance : (d : Domain) → DomainEvent d.Event
  | order => inferInstanceAs (DomainEvent OrderEvent)
  | account => inferInstanceAs (DomainEvent AccountEvent)
  | note => inferInstanceAs (DomainEvent NoteEvent)

end Domain

/-- The kinds of aggregates. -/
inductive Kind
  | order
  | ledger
  | account
  | notebook
  deriving DecidableEq, Repr

namespace Kind

def domain : Kind → Domain
  | order | ledger => .order
  | account => .account
  | notebook => .note

abbrev Event (k : Kind) : Type := k.domain.Event

abbrev State : Kind → Type
  | order => Domain.Order
  | ledger => Domain.Ledger
  | account => Domain.Account
  | notebook => Domain.Notebook

instance : (k : Kind) → Aggregate k.State k.Event
  | order => inferInstanceAs (Aggregate Domain.Order Domain.OrderEvent)
  | ledger => inferInstanceAs (Aggregate Domain.Ledger Domain.OrderEvent)
  | account => inferInstanceAs (Aggregate Domain.Account Domain.AccountEvent)
  | notebook => inferInstanceAs (Aggregate Domain.Notebook Domain.NoteEvent)

/-- The aggregates of a kind, with the events that change them. -/
abbrev Root (k : Kind) : Type := EventSourcing.Root k.State k.Event

abbrev Repository (k : Kind) : Type := EventSourcing.Repository k.State k.Event

/-- Offers the deletion event of the kinds that have one of their own. -/
def offerOwn : (k : Kind) → k.Repository → k.Repository
  | order, r => (r : EventSourcing.Repository Domain.Order Domain.OrderEvent).offerOwn
  | account, r => (r : EventSourcing.Repository Domain.Account Domain.AccountEvent).offerOwn
  | ledger, r | notebook, r => r

/-- A deletion method for every kind. -/
def deletionMethod : (k : Kind) → k.State → k.Event
  | order, _ | ledger, _ => Domain.OrderEvent.deleted
  | account, _ => Domain.AccountEvent.closed
  | notebook, n => Domain.NoteEvent.note ("deleted after " ++ toString n.notes.length)

/-- A deletion method that does something else. -/
def alternativeMethod : (k : Kind) → k.State → k.Event
  | order, _ | ledger, _ => Domain.OrderEvent.shipped
  | account, a => Domain.AccountEvent.withdrawn a.balance
  | notebook, _ => Domain.NoteEvent.poison

end Kind

/-- One value for each kind. -/
structure PerKind (F : Kind → Type) where
  order : F .order
  ledger : F .ledger
  account : F .account
  notebook : F .notebook

namespace PerKind

variable {F : Kind → Type}

def get (p : PerKind F) : (k : Kind) → F k
  | .order => p.order
  | .ledger => p.ledger
  | .account => p.account
  | .notebook => p.notebook

def set (p : PerKind F) : (k : Kind) → F k → PerKind F
  | .order, x => { p with order := x }
  | .ledger, x => { p with ledger := x }
  | .account, x => { p with account := x }
  | .notebook, x => { p with notebook := x }

end PerKind

end EventSourcing
