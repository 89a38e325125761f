import EventSourcing.Session.Basic

/-!
# The repositories and roots of a session

Repositories and roots have names, for each kind of aggregates their own. What names something that
is not there gives no answer.
-/

namespace EventSourcing.Session

variable {k : Kind}

def repository? (s : Session) (k : Kind) (name : String) : Option k.Repository :=
  (s.repositories.get k).get? name

def setRepository (s : Session) (name : String) (r : k.Repository) : Session :=
  { s with repositories := s.repositories.set k ((s.repositories.get k).insert name r) }

def root? (s : Session) (k : Kind) (name : String) : Option k.Root := (s.roots.get k).get? name

def setRoot (s : Session) (name : String) (r : k.Root) : Session :=
  { s with roots := s.roots.set k ((s.roots.get k).insert name r) }

/-- Loads an aggregate, and on success keeps it under a name. -/
def loadRoot? (s : Session) (k : Kind) (repository name id : String) :
    Option (Except RepositoryError k.Root × Session) := do
  let r ← s.repository? k repository
  match s.call fun c => r.get c id with
  | (.ok root, s) => return (.ok root, s.setRoot name root)
  | (.error e, s) => return (.error e, s)

/-- Saves the root of a name. -/
def saveRoot? (s : Session) (k : Kind) (repository name : String) :
    Option (Except RepositoryError Unit × k.Root × Session) := do
  let r ← s.repository? k repository
  let root ← s.root? k name
  let ((result, root), s) := s.call fun c =>
    let (result, root, c) := r.save c root
    ((result, root), c)
  return (result, root, s.setRoot name root)

/-- Whether an aggregate is there. -/
def hasAggregate? (s : Session) (k : Kind) (repository id : String) :
    Option (Except RepositoryError Bool × Session) :=
  (s.repository? k repository).map fun r => s.call fun c => r.exists? c id

/-- Removes an aggregate. -/
def removeAggregate? (s : Session) (k : Kind) (repository id : String) :
    Option (Except RepositoryError Unit × Session) :=
  (s.repository? k repository).map fun r => s.call fun c => r.remove c id

end EventSourcing.Session
