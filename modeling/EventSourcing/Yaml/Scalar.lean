import EventSourcing.Settings.Value

/-!
# What scalars stand for

A plain text stands for null, a boolean, a number or itself; a tag may demand one of them. Floats
keep their text: as keys they are told apart by it, and some of their names are no number here.
-/

namespace EventSourcing.Yaml

open EventSourcing.Settings (Value)

inductive Scalar
  | null
  | bool (value : Bool)
  | int (value : Int)
  | float (text : String)
  | text (content : String)
  /-- A text that is not what its tag demands. -/
  | misfit
  deriving DecidableEq, Repr

namespace Scalar

/-- Reads digits of a base behind an optional sign. -/
def integerOf? (base : Nat) : List Char → Option Int
  | '-' :: cs => (Number.digitsOf? base cs).map fun n => -(n : Int)
  | '+' :: cs => (Number.digitsOf? base cs).map Int.ofNat
  | cs => (Number.digitsOf? base cs).map Int.ofNat

/-- An integer behind a mark: of base sixteen, of base eight, or with a sign more. -/
def marked? : List Char → Option Int
  | '0' :: 'x' :: rest => integerOf? 16 rest
  | '0' :: 'o' :: rest => integerOf? 8 rest
  | '+' :: rest => Number.integer? rest
  | _ => none

/-- An integer that fits 64 bits. -/
def integer? (cs : List Char) : Option Int :=
  (Number.integer? cs).filter fun n => Number.FitsInt64 n

/-- The names of infinities and of what is no number. -/
def floatNames : List String :=
  [".inf", ".Inf", ".INF", "+.inf", "+.Inf", "+.INF", "-.inf", "-.Inf", "-.INF", ".nan", ".NAN"]

def isFloat (s : String) : Bool := s ∈ floatNames || (Number.Binary64.read? s.toList).isSome

/-- What a plain text stands for. -/
def ofPlain (s : String) : Scalar :=
  match (marked? s.toList).filter fun n => Number.FitsInt64 n with
  | some n => .int n
  | none =>
    if s ∈ ["", "~", "null"] then .null
    else if s = "true" then .bool true
    else if s = "false" then .bool false
    else
      match integer? s.toList with
      | some n => .int n
      | none => if isFloat s then .float s else .text s

/-- What a plain text stands for if a tag demands this type. -/
def ofTyped (type s : String) : Scalar :=
  match type with
  | "bool" => if s = "true" then .bool true else if s = "false" then .bool false else .misfit
  | "int" => ((integer? s.toList).map .int).getD .misfit
  | "float" => if isFloat s then .float s else .misfit
  | "null" => if s ∈ ["~", "null"] then .null else .misfit
  | _ => .text s

/-- The value of a scalar, if it has one. -/
def value? : Scalar → Option Value
  | .null | .misfit => some .null
  | .bool b => some (.bool b)
  | .int n => some (.int n)
  | .float s => (Number.Binary64.read? s.toList).map .float
  | .text s => some (.text s)

/-- The key that a scalar stands for, if it can be one. -/
def key? : Scalar → Option String
  | .bool b => some (toString b)
  | .int n => some (toString n)
  | .float s | .text s => some s
  | .null | .misfit => none

end Scalar

end EventSourcing.Yaml
