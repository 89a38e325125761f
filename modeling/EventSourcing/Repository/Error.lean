import EventSourcing.Event.Encoding
import EventSourcing.Store.Error

/-!
# What a repository answers when it does not do as asked
-/

namespace EventSourcing

inductive RepositoryError
  | concurrency (conflict : Conflict)
  | notFound (stream : String)
  | deletionDisabled (kind : String)
  | deletionMisconfigured (kind method : String)
  | store (error : StoreError)
  | serialization (error : EncodeError)
  deriving DecidableEq, Repr

namespace RepositoryError

def ofStoreError : StoreError → RepositoryError
  | .concurrency conflict => .concurrency conflict
  | e => .store e

def message : RepositoryError → String
  | .concurrency conflict => conflict.message
  | .notFound stream => "Aggregate not found: " ++ stream
  | .deletionDisabled kind =>
    "Deletion is disabled for '" ++ kind ++ "'; set delete_mode to 'soft' or 'hard'"
  | .deletionMisconfigured kind method =>
    "Soft delete misconfigured: aggregate '" ++ kind ++ "' has no deletion method '" ++ method ++
      "'"
  | .store e => "Storage error: " ++ e.message
  | .serialization e => e.message

/-- Whether the same call may succeed later. A conflict never does: the caller has to load the
aggregate and decide again. -/
def isTransient : RepositoryError → Bool
  | .store e => e.isTransient
  | _ => false

end RepositoryError

end EventSourcing
