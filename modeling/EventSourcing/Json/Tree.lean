import EventSourcing.Json.Token

/-!
# Trees of JSON text

The tokens of a document are put together by a machine with a stack of open arrays and objects. A
tree keeps strings that are no text and numbers that no float holds: they count only where they are
read (`fields?`, `text?`, `int?`) or where the whole tree is taken as a value (`isValue`).
-/

namespace EventSourcing.Json

inductive Tree
  | null
  | bool (value : Bool)
  | number (value : Numeral)
  | text (content : Option String)
  | array (items : List Tree)
  | object (members : List (Option String × Tree))
  deriving Repr

/-! ## Building -/

/-- What is open around the current place, with its finished parts, the last one first. -/
inductive Frame
  | array (items : List Tree)
  | object (members : List (Option String × Tree))
  | member (members : List (Option String × Tree)) (key : Option String)

/-- What may come at the current place. -/
inductive Expect
  | value
  | firstItem
  | firstKey
  | key
  | colon
  | close (value : Tree)

abbrev Machine := List Frame × Expect

def startValue (stack : List Frame) : Token → Option Machine
  | .openArray => some (.array [] :: stack, .firstItem)
  | .openObject => some (.object [] :: stack, .firstKey)
  | .null => some (stack, .close .null)
  | .bool b => some (stack, .close (.bool b))
  | .number n => some (stack, .close (.number n))
  | .text s => some (stack, .close (.text s))
  | _ => none

def startMember : List Frame → Token → Option Machine
  | .object members :: stack, .text key => some (.member members key :: stack, .colon)
  | _, _ => none

/-- Ends the current value: a comma goes on, a bracket or brace ends what is around it. -/
def endValue (value : Tree) : List Frame → Token → Option Machine
  | .array items :: stack, .comma => some (.array (value :: items) :: stack, .value)
  | .array items :: stack, .closeArray => some (stack, .close (.array (value :: items).reverse))
  | .member members key :: stack, .comma => some (.object ((key, value) :: members) :: stack, .key)
  | .member members key :: stack, .closeObject =>
    some (stack, .close (.object ((key, value) :: members).reverse))
  | _, _ => none

def Machine.step : Machine → Token → Option Machine
  | (stack, .value), token => startValue stack token
  | (.array [] :: stack, .firstItem), .closeArray => some (stack, .close (.array []))
  | (stack, .firstItem), token => startValue stack token
  | (.object [] :: stack, .firstKey), .closeObject => some (stack, .close (.object []))
  | (stack, .firstKey), token => startMember stack token
  | (stack, .key), token => startMember stack token
  | (stack, .colon), .colon => some (stack, .value)
  | (_, .colon), _ => none
  | (stack, .close value), token => endValue value stack token

/-- The tree of a whole document: one value and nothing else. -/
def Tree.ofTokens? (tokens : List Token) : Option Tree :=
  match tokens.foldlM Machine.step ([], .value) with
  | some ([], .close value) => some value
  | _ => none

def Tree.parse? (bs : Bytes) : Option Tree := (scan bs).bind Tree.ofTokens?

/-! ## Reading -/

namespace Tree

/-- How deep arrays and objects may be nested in a value. -/
def maxDepth : Nat := 127

mutual

/-- Whether the tree is a value: every string is text, every number is finite, and arrays and
objects are nested no deeper than `depth`. -/
def isValueWithin (depth : Nat) : Tree → Bool
  | .null => true
  | .bool _ => true
  | .number n => n.isFinite
  | .text content => content.isSome
  | .array items => depth ≠ 0 && areValuesWithin (depth - 1) items
  | .object members => depth ≠ 0 && areMembersWithin (depth - 1) members

def areValuesWithin (depth : Nat) : List Tree → Bool
  | [] => true
  | t :: ts => isValueWithin depth t && areValuesWithin depth ts

def areMembersWithin (depth : Nat) : List (Option String × Tree) → Bool
  | [] => true
  | (key, t) :: ms => key.isSome && isValueWithin depth t && areMembersWithin depth ms

end

def isValue (t : Tree) : Bool := isValueWithin maxDepth t

/-- The value of a named member, none if it is missing; nothing if it is there twice. -/
def member? (members : List (Option String × Tree)) (name : String) : Option (Option Tree) :=
  match members.filter fun m => m.1 = some name with
  | [] => some none
  | [(_, t)] => some (some t)
  | _ => none

/-- The values of the named fields, none for a missing one: the members of an object whose keys are
all text, or the items of an array in order. Unknown members are not looked at. -/
def fields? (names : List String) : Tree → Option (List (Option Tree))
  | .object members =>
    if members.all fun m => m.1.isSome then names.mapM (member? members) else none
  | .array items =>
    if names.length < items.length then none
    else some (items.map some ++ List.replicate (names.length - items.length) none)
  | _ => none

def text? : Tree → Option String
  | .text content => content
  | _ => none

/-- A plain integer. -/
def int? : Tree → Option Int
  | .number n => n.toInt?
  | _ => none

/-- A text, or none for `null`. -/
def optionalText? : Tree → Option (Option String)
  | .null => some none
  | t => t.text?.map some

end Tree

end EventSourcing.Json
