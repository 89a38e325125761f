import EventSourcing.Settings.Value

/-!
# Reading settings off a tree

A section is a table with the settings by name, or an array with them in order. A setting that is
missing has its default. Numbers and texts are converted into each other where that makes sense;
nothing comes of a value that cannot be converted.
-/

namespace EventSourcing.Settings.Value

/-- The unsigned number that a text stands for: a switch or a decimal number. -/
def wordOfText (s : String) : Option Nat :=
  let word := foldKey s
  if word ∈ ["true", "on", "yes"] then some 1
  else if word ∈ ["false", "off", "no"] then some 0
  else Number.natural? s.toList

/-- An unsigned number of at most `limit`. Floats are rounded and held in the range of 64 bits. -/
def word? (limit : Nat) (v : Value) : Option Nat :=
  let n? := match v with
    | .bool b => some b.toNat
    | .int n => if 0 ≤ n then some n.toNat else none
    | .float x => some (x.toWord Number.maxWord64)
    | .text s => wordOfText s
    | _ => none
  n?.filter (· ≤ limit)

def text? : Value → Option String
  | .bool b => some (toString b)
  | .int n => some (toString n)
  | .float x => some x.render
  | .text s => some s
  | _ => none

/-- A text, or none for null. -/
def optionalText? : Value → Option (Option String)
  | .null => some none
  | v => v.text?.map some

/-- The name of a choice: a text in any case, or the key of a table with a single entry. -/
def choice? : Value → Option String
  | .text s => some (foldKey s)
  | .table [(key, _)] => some (foldKey key)
  | _ => none

/-- The settings of a section, by name or in order; what is left over is not looked at. -/
def section? (names : List String) : Value → Option (Table String Value)
  | .table entries => some entries
  | .array items => some (names.zip items)
  | _ => none

/-- A setting of a section, or its default. -/
def setting {α : Type} (entries : Table String Value) (name : String) (read : Value → Option α)
    (default : α) : Option α :=
  match entries.get? name with
  | none => some default
  | some v => read v

end EventSourcing.Settings.Value
