import EventSourcing.Number.Integer
import EventSourcing.Settings.Value

/-!
# Paths into settings

A path names a place in a tree of tables and arrays: a key, then keys behind points and indices in
brackets. Text that is no path stands for itself as a key.
-/

namespace EventSourcing.Settings

inductive Step
  | key (name : String)
  | index (place : Int)
  deriving DecidableEq, Repr

structure Path where
  root : String
  steps : List Step
  deriving DecidableEq, Repr

namespace Path

def isKeyChar (c : Char) : Bool := c.isAlphanum || c = '_' || c = '-' || c = ' '

/-- A key, of one character or more. -/
def key? (cs : List Char) : Option String :=
  if cs ≠ [] ∧ cs.all isKeyChar then some (String.ofList cs) else none

/-- The blanks that may stand around an index. -/
def isBlank (c : Char) : Bool := c = ' ' || c = '\t'

/-- An index: digits, behind a minus sign if it counts from the end, that fit 64 bits. -/
def index? (cs : List Char) : Option Int :=
  let text := ((cs.dropWhile isBlank).reverse.dropWhile isBlank).reverse
  if text.head? = some '+' then none
  else (Number.integer? text).filter fun n => Number.FitsInt64 n

/-- A point and a key, or an index in brackets. -/
def step? : List Char → Option Step
  | '.' :: cs => (key? cs).map .key
  | '[' :: cs => if cs.getLast? = some ']' then (index? cs.dropLast).map .index else none
  | _ => none

/-- Cuts a text in front of every point and opening bracket. -/
def cut (cs : List Char) : List (List Char) := cs.splitBy fun _ c => c ≠ '.' && c ≠ '['

def parse? (cs : List Char) : Option Path :=
  match cut cs with
  | [] => none
  | root :: rest => do
    let root ← key? root
    return ⟨root, ← rest.mapM step?⟩

/-- The path that a text stands for. -/
def ofText (s : String) : Path := (parse? s.toList).getD ⟨s, []⟩

end Path

namespace Value

/-- Puts a value at the end of a chain of steps; what the steps pass through is made if it is
missing. -/
def putAt (value : Value) : List Step → Value → Value
  | [], below => value.put below
  | [.key name], below => below.putEntry name value
  | [.index i], below => below.putItem i fun _ => value
  | .key name :: steps, below =>
    let key := foldKey name
    .table (below.entries.insert key (putAt value steps ((below.entries.get? key).getD .null)))
  | .index i :: steps, below => below.putItem i (putAt value steps)

/-- Puts a value at a path. -/
def putPath (below : Value) (path : Path) (value : Value) : Value :=
  putAt value (.key path.root :: path.steps) below

/-- Puts the entries of a layer on top; the keys of a layer are paths. -/
def putLayer (below : Value) (layer : Table String Value) : Value :=
  layer.foldl (fun v entry => v.putPath (.ofText entry.1) entry.2) below

end Value

end EventSourcing.Settings
