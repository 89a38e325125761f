import EventSourcing.Settings.Path
import EventSourcing.Text.Prefix

/-!
# Settings from the environment

A variable takes part if its name starts with the prefix. Two underscores in the rest of the name
stand between the levels of a path.
-/

namespace EventSourcing.Settings

/-- What the names of the variables start with, in any case. -/
def environmentPrefix : String := "tessera__"

/-- Puts a point in the place of every two underscores. -/
def levels : List Char → List Char
  | '_' :: '_' :: cs => '.' :: levels cs
  | c :: cs => c :: levels cs
  | [] => []

/-- The path that a variable sets. -/
def variableKey? (name : String) : Option String :=
  (Text.strip? environmentPrefix (foldKey name)).map fun rest => String.ofList (levels rest.toList)

/-- The value of a variable: a boolean, an integer or a float where it reads as one, else its
text. -/
def variableValue (s : String) : Value :=
  let word := s.toList.map lowerChar
  if word = "true".toList then .bool true
  else if word = "false".toList then .bool false
  else
    let float : Value := match Number.Binary64.read? s.toList with
      | some x => .float x
      | none => .text s
    match Number.integer? s.toList with
    | some n => if Number.FitsInt64 n then .int n else float
    | none => float

/-- The layer of the environment. -/
def ofEnvironment (environment : List (String × String)) : Table String Value :=
  environment.filterMap fun v => (variableKey? v.1).map fun key => (key, variableValue v.2)

end EventSourcing.Settings
