import EventSourcing.Aggregate
import EventSourcing.Repository.Error
import EventSourcing.Store.Basic

/-!
# Repositories

A repository loads aggregates of one kind by folding their streams and saves their pending events
under a check of the version. The stream of an aggregate is named after a category and its id. How
an aggregate is removed is a matter of configuration.
-/

namespace EventSourcing

/-- What removing an aggregate does. -/
inductive Removal
  /-- It is refused. -/
  | disabled
  /-- It appends a deletion event. -/
  | soft
  /-- It deletes the stream. -/
  | hard
  deriving DecidableEq, Repr

def Removal.name : Removal → String
  | .disabled => "Disabled"
  | .soft => "Soft"
  | .hard => "Hard"

/-- The name of the deletion method that is asked for unless another one is configured. -/
def defaultDeletionMethod : String := "mark_as_deleted"

structure RepositorySettings where
  /-- The category of the streams; the kind of the aggregate if there is none. -/
  category : Option String := none
  removal : Removal := .disabled
  softDeleteMethod : String := defaultDeletionMethod
  deriving DecidableEq, Repr

structure Repository (A E : Type) where
  category : String
  removal : Removal
  softDeleteMethod : String
  /-- The deletion method of the configured name. -/
  deletion : Option (A → E)

namespace Repository

variable {A E : Type} [DomainEvent E] [Aggregate A E]

/-- A repository as configured. -/
def ofSettings (settings : RepositorySettings) : Repository A E where
  category := settings.category.getD (Aggregate.kind A)
  removal := settings.removal
  softDeleteMethod := settings.softDeleteMethod
  deletion := none

/-- A repository with deletion disabled. -/
def new : Repository A E := ofSettings {}

def inMode (r : Repository A E) (mode : Removal) : Repository A E :=
  { r with removal := mode }

/-- Offers a deletion method; it is kept if it has the configured name. -/
def offer (r : Repository A E) (name : String) (method : A → E) : Repository A E :=
  if name = r.softDeleteMethod then { r with deletion := some method } else r

/-- Offers the aggregate's own deletion event under the default name. -/
def offerOwn [Removable A E] (r : Repository A E) : Repository A E :=
  r.offer defaultDeletionMethod Removable.deletion

/-- The stream of an aggregate. -/
def streamOf (r : Repository A E) (id : String) : String := r.category ++ "-" ++ id

/-! ## Loading -/

/-- The records that decode; the others are left out. -/
def decodeAll (records : List StoredRecord) : List (Record E) :=
  records.filterMap fun r =>
    match r.decode E with
    | .event e => some e
    | _ => none

/-- The version of a stream with these records, which is one more than the last position. -/
def versionOf? (records : List StoredRecord) : Option Nat := records.getLast?.map (·.position + 1)

variable {σ : Type} [LogClient σ]

/-- Loads an aggregate. A stream without records, or a deleted one, is not found. -/
def get (r : Repository A E) (client : σ) (id : String) : Except RepositoryError (Root A E) × σ :=
  match Store.read client (r.streamOf id) 0 with
  | (.error (.streamDeleted _), client) => (.error (.notFound (r.streamOf id)), client)
  | (.error e, client) => (.error (.ofStoreError e), client)
  | (.ok records, client) =>
    match versionOf? records with
    | none => (.error (.notFound (r.streamOf id)), client)
    | some version => (.ok (.loaded id version (replay (decodeAll records))), client)

/-- Whether the stream of an aggregate has any events. -/
def exists? (r : Repository A E) (client : σ) (id : String) : Except RepositoryError Bool × σ :=
  match Store.version client (r.streamOf id) with
  | (.ok version, client) => (.ok (0 < version), client)
  | (.error (.streamDeleted _), client) => (.ok false, client)
  | (.error e, client) => (.error (.ofStoreError e), client)

/-! ## Saving -/

/-- The pending events of a root, encoded, or the first failure. -/
def encodePending (r : Repository A E) (root : Root A E) : Except EncodeError (List EncodedEvent) :=
  root.pending.mapM fun event => EncodedEvent.ofEvent event r.category

/-- Saves the pending events of a root. A failure leaves the root as it was. -/
def save (r : Repository A E) (client : σ) (root : Root A E) :
    Except RepositoryError Unit × Root A E × σ :=
  if root.pending = [] then (.ok (), root, client)
  else
    match r.encodePending root with
    | .error e => (.error (.serialization e), root, client)
    | .ok events =>
      match Store.append client (r.streamOf root.id) events root.version with
      | (.error e, client) => (.error (.ofStoreError e), root, client)
      | (.ok version, client) => (.ok (), root.saved version, client)

/-! ## Removing -/

/-- Appends the deletion event of a loaded aggregate. -/
def removeSoft (r : Repository A E) (client : σ) (id : String) : Except RepositoryError Unit × σ :=
  match r.get client id with
  | (.error e, client) => (.error e, client)
  | (.ok root, client) =>
    match r.deletion with
    | none => (.error (.deletionMisconfigured (Aggregate.kind A) r.softDeleteMethod), client)
    | some deletion =>
      let (result, _, client) := r.save client (root.raise (deletion root.state))
      (result, client)

/-- Deletes the stream of an aggregate. -/
def removeHard (r : Repository A E) (client : σ) (id : String) : Except RepositoryError Unit × σ :=
  match Store.delete client (r.streamOf id) with
  | (.ok _, client) => (.ok (), client)
  | (.error (.streamDeleted _), client) => (.error (.notFound (r.streamOf id)), client)
  | (.error e, client) => (.error (.ofStoreError e), client)

/-- Removes an aggregate as the mode says. -/
def remove (r : Repository A E) (client : σ) (id : String) : Except RepositoryError Unit × σ :=
  match r.removal with
  | .disabled => (.error (.deletionDisabled (Aggregate.kind A)), client)
  | .soft => r.removeSoft client id
  | .hard => r.removeHard client id

end Repository

end EventSourcing
