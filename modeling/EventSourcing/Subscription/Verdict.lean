import EventSourcing.Event.Encoding

/-!
# What becomes of a record

A subscription hands a record on only if it decodes. Marks of deleted streams and bookkeeping of the
log are recognised first, whatever their payload.
-/

namespace EventSourcing

inductive Verdict (E : Type)
  | tombstone
  | system
  | skipped
  | undecodable (error : DecodeError)
  | deliver (record : Record E)
  deriving DecidableEq, Repr

namespace Verdict

/-- Decides what becomes of a record. -/
def of (E : Type) [DomainEvent E] (r : StoredRecord) : Verdict E :=
  if r.isTombstone then .tombstone
  else if r.isSystem then .system
  else
    match r.decode E with
    | .event record => .deliver record
    | .skip => .skipped
    | .error e => .undecodable e

variable {E : Type}

/-- Whether the consumer does not get to see the record. -/
def isHidden : Verdict E → Bool
  | .deliver _ => false
  | _ => true

/-- The record for the consumer. -/
def delivered? : Verdict E → Option (Record E)
  | .deliver record => some record
  | _ => none

end Verdict

end EventSourcing
