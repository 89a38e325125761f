import EventSourcing.Yaml.Scalar
import EventSourcing.Yaml.Token

/-!
# Nodes of YAML text

A node is a scalar, a sequence or a mapping. Nodes are put together from tokens; one that has an
anchor can be referred to behind it, which stands for the node again.
-/

namespace EventSourcing.Yaml

open EventSourcing.Settings (Value)

inductive Node
  | scalar (value : Scalar)
  | sequence (items : List Node)
  | mapping (entries : List (Node × Node))
  deriving BEq, Repr

namespace Node

def null : Node := .scalar .null

/-- Pairs keys with values. What is no key is left out, and so is a key without a value. -/
def pairs : List Node → List (Node × Node)
  | [] => []
  | .scalar .misfit :: rest => pairs rest
  | [_] => []
  | key :: value :: rest => (key, value) :: pairs rest

/-- Whether no key is there twice. -/
def hasDistinctKeys : List (Node × Node) → Bool
  | [] => true
  | (key, _) :: rest => !rest.any (·.1 == key) && hasDistinctKeys rest

/-- The mapping of these keys and values, one behind the other. -/
def ofEntries? (nodes : List Node) : Option Node :=
  let entries := pairs nodes
  if hasDistinctKeys entries then some (.mapping entries) else none

/-! ## Values -/

/-- The key that a node stands for, if it can be one. -/
def key? : Node → Option String
  | .scalar s => s.key?
  | _ => none

mutual

def value? : Node → Option Value
  | .scalar s => s.value?
  | .sequence items => (values? items).map .array
  | .mapping entries => (entryValues? entries).map .table

def values? : List Node → Option (List Value)
  | [] => some []
  | n :: rest => do
    let value ← value? n
    return value :: (← values? rest)

/-- The entries of a mapping; of keys that are written the same the last one counts. -/
def entryValues? : List (Node × Node) → Option (Table String Value)
  | [] => some []
  | (key, n) :: rest => do
    let key ← key.key?
    let value ← value? n
    let entries : Table String Value ← entryValues? rest
    return if (entries.get? key).isSome then entries else (key, value) :: entries

end

end Node

/-! ## Building -/

/-- What the tokens in front have declared, and the tokens that are left. -/
structure Source where
  tokens : List Token
  /-- What the handles of tags stand for. -/
  handles : Table String String
  /-- The numbers of the anchors, counted by their places. -/
  anchors : Table String Nat := []
  count : Nat := 0
  /-- The nodes of the anchors, as far as they are complete. -/
  nodes : Table Nat Node := []

abbrev Builder (α : Type) := StateT Source Option α

namespace Builder

def peek? : Builder (Option Token) := return (← get).tokens.head?

def skip : Builder Unit := modify fun s => { s with tokens := s.tokens.drop 1 }

/-- Skips a token if it is next. -/
def skipIf (t : Token) : Builder Bool := do
  if (← peek?) = some t then
    skip
    return true
  else return false

/-- Skips a token, which has to be next. -/
def expect (t : Token) : Builder Unit := do
  if ← skipIf t then return () else failure

/-- Whether one of the tokens is next. -/
def isNext (ts : List Token) : Builder Bool := return (← peek?).any (· ∈ ts)

/-! ## Anchors and tags -/

/-- The front of the tags that say which type a scalar has. -/
def typeFront : String := "tag:yaml.org,2002:"

/-- The type that a tag demands, if it is one of those. Its handle has to be declared. -/
def typeOf? (handle suffix : String) : Builder (Option String) := do
  let front ← match (← get).handles.get? handle with
    | some front => pure front
    | none =>
      if handle = "!!" then pure typeFront
      else if handle = "" ∨ handle = "!" then pure handle
      else failure
  return if front = typeFront then some suffix else some ""

/-- Takes a tag, if one is next: the type of a scalar, which is empty for any other tag. -/
def tag? : Builder (Option String) := do
  match ← peek? with
  | some (.tag handle suffix) =>
    skip
    typeOf? handle suffix
  | _ => return none

/-- Takes an anchor, if one is next: its number. -/
def anchor? : Builder (Option Nat) := do
  match ← peek? with
  | some (.anchor name) =>
    skip
    modifyGet fun s =>
      (some s.count, { s with anchors := s.anchors.insert name s.count, count := s.count + 1 })
  | _ => return none

/-- Takes an anchor and a tag, in any order. -/
def properties? : Builder (Option Nat × Option String) := do
  match ← anchor? with
  | some n => return (some n, ← tag?)
  | none =>
    match ← tag? with
    | some type => return (← anchor?, some type)
    | none => return (none, none)

/-- Keeps the node of an anchor. -/
def keep (anchor : Option Nat) (n : Node) : Builder Node := do
  match anchor with
  | some count => modify fun s => { s with nodes := s.nodes.insert count n }
  | none => pure ()
  return n

/-- The node that a name refers to. An anchor whose node is not complete stands for nothing. -/
def refer? (name : String) : Builder Node := do
  let s ← get
  match s.anchors.get? name with
  | some count => return (s.nodes.get? count).getD (.scalar .misfit)
  | none => failure

/-- A scalar with the type that its tag demands. -/
def scalar (isPlain : Bool) (type : Option String) (text : String) : Node :=
  .scalar (if !isPlain then .text text else match type with
    | some type => .ofTyped type text
    | none => .ofPlain text)

/-- The empty scalar that an anchor or tag without a node belongs to. -/
def empty (anchor : Option Nat) (type : Option String) : Builder Node :=
  if anchor.isNone ∧ type.isNone then failure else keep anchor (scalar true type "")

/-! ## Nodes -/

mutual

/-- Takes a node. Only where blocks may start, a block is one; `isBare` allows the items of a block
that is not indented. Every token and every empty place takes fuel. -/
def node (fuel : Nat) (mayBlock isBare : Bool) : Builder Node := do
  match fuel, ← peek? with
  | 0, _ => failure
  | _ + 1, some (.alias name) =>
    skip
    refer? name
  | fuel + 1, _ =>
    let (anchor, type) ← properties?
    match ← peek? with
    | some (.scalar isPlain text) =>
      skip
      keep anchor (scalar isPlain type text)
    | some .openSequence =>
      skip
      keep anchor (.sequence (← flowItems fuel true))
    | some .openMapping =>
      skip
      keep anchor (← Node.ofEntries? (← flowEntries fuel true))
    | some .openItems =>
      if mayBlock then
        skip
        keep anchor (.sequence (← items fuel true))
      else empty anchor type
    | some .openEntries =>
      if mayBlock then
        skip
        keep anchor (← Node.ofEntries? (← entries fuel))
      else empty anchor type
    | some .item =>
      if isBare then keep anchor (.sequence (← items fuel false)) else empty anchor type
    | _ => empty anchor type

/-- Takes a node of a block, or null in front of one of these tokens. -/
def nodeOrNull (fuel : Nat) (mayBlock isBare : Bool) (stops : List Token) : Builder Node := do
  match fuel with
  | 0 => failure
  | fuel + 1 => if ← isNext stops then return .null else node fuel mayBlock isBare

/-- Takes the items of a block; one that is not indented ends in front of anything else. -/
def items (fuel : Nat) (isClosed : Bool) : Builder (List Node) := do
  match fuel with
  | 0 => failure
  | fuel + 1 =>
    if ← skipIf .item then
      let stops := if isClosed then [.item, .closeBlock] else [.item, .key, .value, .closeBlock]
      let n ← nodeOrNull fuel true false stops
      return n :: (← items fuel isClosed)
    else
      if isClosed then expect .closeBlock
      return []

/-- Takes the keys and values of a block. -/
def entries (fuel : Nat) : Builder (List Node) := do
  match fuel with
  | 0 => failure
  | fuel + 1 =>
    if ← skipIf .closeBlock then return []
    else
      let stops : List Token := [.key, .value, .closeBlock]
      let key ←
        if ← isNext [.value] then pure .null
        else
          expect .key
          nodeOrNull fuel true true stops
      let value ← if ← skipIf .value then nodeOrNull fuel true true stops else pure .null
      return key :: value :: (← entries fuel)

/-- Takes the items of a sequence in brackets, which commas stand between. A marked key makes an
item of a mapping with a single entry. -/
def flowItems (fuel : Nat) (isFirst : Bool) : Builder (List Node) := do
  match fuel with
  | 0 => failure
  | fuel + 1 =>
    if ← skipIf .closeSequence then return []
    else
      if !isFirst then expect .comma
      if ← skipIf .closeSequence then return []
      else
        let n ← if ← skipIf .key then pair fuel else node fuel false false
        return n :: (← flowItems fuel false)

/-- Takes the mapping with a single entry whose key has been marked. A key that is missing takes the
sign behind it with it. -/
def pair (fuel : Nat) : Builder Node := do
  match fuel with
  | 0 => failure
  | fuel + 1 =>
    let stops : List Token := [.comma, .closeSequence]
    let key ←
      if ← isNext (.value :: stops) then
        skip
        pure .null
      else node fuel false false
    let value ← if ← skipIf .value then nodeOrNull fuel false false stops else pure .null
    Node.ofEntries? [key, value]

/-- Takes the keys and values of a mapping in braces, which commas stand between. -/
def flowEntries (fuel : Nat) (isFirst : Bool) : Builder (List Node) := do
  match fuel with
  | 0 => failure
  | fuel + 1 =>
    if ← skipIf .closeMapping then return []
    else
      if !isFirst then expect .comma
      if ← skipIf .closeMapping then return []
      else
        let stops : List Token := [.comma, .closeMapping]
        if !(← isNext [.key, .value]) then
          let key ← node fuel false false
          return key :: .null :: (← flowEntries fuel false)
        else
          let key ←
            if ← skipIf .key then nodeOrNull fuel false false (.value :: stops) else pure .null
          let value ← if ← skipIf .value then nodeOrNull fuel false false stops else pure .null
          return key :: value :: (← flowEntries fuel false)

end

end Builder

end EventSourcing.Yaml
