import EventSourcing.Number.Binary64
import EventSourcing.Table

/-!
# Layers of settings

A source of settings is a tree of tables. Layers are put on top of each other key by key: tables
merge, and anything else replaces what is below it. Keys are told apart without regard to case.
-/

namespace EventSourcing.Settings

inductive Value
  | null
  | bool (value : Bool)
  | int (value : Int)
  | float (value : Number.Binary64)
  | text (value : String)
  | array (items : List Value)
  | table (entries : List (String × Value))
  deriving Repr

/-- The Kelvin sign is the only character beyond ASCII whose small form is an ASCII letter. -/
def kelvinSign : Char := '\u212a'

/-- A character in its small form, as far as ASCII has one. -/
def lowerChar (c : Char) : Char := if c = kelvinSign then 'k' else c.toLower

/-- The form in which keys are kept. -/
def foldKey (s : String) : String := String.ofList (s.toList.map lowerChar)

namespace Value

/-- The entries of a table; nothing else has any. -/
def entries : Value → Table String Value
  | .table entries => entries
  | _ => []

/-- The items of an array; nothing else has any. -/
def items : Value → List Value
  | .array items => items
  | _ => []

mutual

/-- What stands in a place after a value has been put there. -/
def put (below : Option Value) : Value → Value
  | .table entries => putAll (below.getD (.table [])) entries
  | .null => .null
  | .bool b => .bool b
  | .int n => .int n
  | .float x => .float x
  | .text s => .text s
  | .array items => .array items

/-- Puts entries into a table, one after the other; the first one makes a table of anything else. -/
def putAll (below : Value) : List (String × Value) → Value
  | [] => below
  | (key, value) :: rest =>
    let key := foldKey key
    putAll (.table (below.entries.insert key (put (below.entries.get? key) value))) rest

end

/-- Puts one entry into a table. -/
def putEntry (below : Value) (key : String) (value : Value) : Value := putAll below [(key, value)]

/-- Gives an array a new item; a negative index counts from the end. An array that is too short is
filled up with nulls, in front if the index is negative. -/
def putItem (below : Value) (index : Int) (change : Value → Value) : Value :=
  let items := List.replicate ((-index).toNat - below.items.length) .null ++ below.items
  let i := if 0 ≤ index then index.toNat else items.length - index.natAbs
  let items := items ++ List.replicate (i + 1 - items.length) .null
  .array (items.set i (change (items.getD i .null)))

end Value

end EventSourcing.Settings
