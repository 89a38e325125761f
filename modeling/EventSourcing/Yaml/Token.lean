import EventSourcing.Yaml.Block
import EventSourcing.Yaml.Tag

/-!
# Tokens of YAML text

A text is cut into tokens before its structure is looked at. Indentation becomes tokens as well:
they open a block where a key or a dash stands further right than what is around it, and close it
where a line starts further left. That something is a key shows only at the colon behind it, so the places
where a key may have started are kept in mind.
-/

namespace EventSourcing.Yaml

inductive Token
  | directive (directive : Directive)
  | documentStart
  | documentEnd
  | openItems
  | openEntries
  /-- Closes a block of items or entries. -/
  | closeBlock
  | openSequence
  | closeSequence
  | openMapping
  | closeMapping
  | comma
  /-- The dash of an item. -/
  | item
  | key
  | value
  | alias (name : String)
  | anchor (name : String)
  | tag (handle suffix : String)
  | scalar (isPlain : Bool) (text : String)
  deriving DecidableEq, Repr

/-! ## The layout of a text -/

/-- A level of indentation: that of a block, or one that keeps what stands behind a key or dash to
the right of it. -/
structure Level where
  column : Nat
  isBlock : Bool
  deriving DecidableEq, Repr

/-- A place where a key may have started. -/
structure KeyStart where
  place : Cursor
  /-- How many tokens stand in front. -/
  count : Nat
  /-- Whether nothing else can stand there. -/
  isRequired : Bool

/-- What is known of a text up to a place. -/
structure Layout where
  cursor : Cursor
  /-- The tokens so far, the latest first. -/
  tokens : List Token := []
  /-- The levels of indentation around the place, the innermost first. -/
  levels : List Level := []
  keyStart : Option KeyStart := none
  /-- The starts of keys around each open bracket, the innermost first. -/
  outer : List (Option KeyStart) := []
  mayStartKey : Bool := true
  /-- Where a colon may stand inside brackets with nothing behind it that sets it off. -/
  closeColon : Nat := 0
  /-- Whether keys inside brackets are marked, because a brace or question mark came before. -/
  marksKeys : Bool := false
  /-- Whether a mapping of a single entry is open that has no braces. -/
  inPair : Bool := false

namespace Layout

/-- The column of the innermost level, or -1. -/
def indent (l : Layout) : Int := l.levels.head?.elim (-1) fun level => level.column

def inFlow (l : Layout) : Bool := !l.outer.isEmpty

/-- Whether the innermost level is that of a block. -/
def inBlock (l : Layout) : Bool := l.levels.head?.any (·.isBlock)

def push (l : Layout) (t : Token) : Layout := { l with tokens := t :: l.tokens }

/-- Adds a token behind the first `count` ones. -/
def insert (l : Layout) (count : Nat) (t : Token) : Layout :=
  let later := l.tokens.length - count
  { l with tokens := l.tokens.take later ++ t :: l.tokens.drop later }

/-! ## Levels -/

/-- Closes the levels to the right of a column. -/
def closeTo (l : Layout) (column : Int) : Layout :=
  if l.inFlow then l
  else
    let (closed, levels) := l.levels.span fun level => column < level.column
    let ends := List.replicate (closed.countP (·.isBlock)) Token.closeBlock
    { l with tokens := ends ++ l.tokens, levels := levels }

/-- Closes the levels inside of the innermost block. -/
def closeNested (l : Layout) : Layout := { l with levels := l.levels.dropWhile (!·.isBlock) }

/-- Opens a block at a column if it is further right; its token goes behind the first `count`
ones. -/
def openBlock (l : Layout) (column count : Nat) (t : Token) : Layout :=
  if l.inFlow then l
  else
    let l := if l.indent ≤ column ∧ !l.inBlock then { l with levels := l.levels.drop 1 } else l
    if l.indent < column then { l.insert count t with levels := ⟨column, true⟩ :: l.levels } else l

/-- Keeps what follows to the right of the block. -/
def openNested (l : Layout) : Layout :=
  if !l.inFlow ∧ l.inBlock then
    { l with levels := ⟨(l.indent + 1).toNat, false⟩ :: l.levels }
  else l

/-! ## Starts of keys -/

/-- Gives up a start of a key, which must not be required. -/
def dropKey? (l : Layout) : Option Layout :=
  if l.keyStart.any (·.isRequired) then none else some { l with keyStart := none }

/-- Keeps the place in mind if a key may start. -/
def markKey? (l : Layout) : Option Layout :=
  if !l.mayStartKey then some l
  else do
    let l ← l.dropKey?
    let isRequired := !l.inFlow && l.indent = l.cursor.column && l.inBlock
    return { l with keyStart := some ⟨l.cursor, l.tokens.length, isRequired⟩ }

/-- The longest distance from the start of a key to its colon. -/
def maxKeyLength : Nat := 1024

/-- Gives up the start of a key that is too far back: outside of brackets a key is short and on one
line. -/
def dropOldKey? (l : Layout) : Option Layout :=
  let isOld (k : KeyStart) : Bool :=
    k.place.line < l.cursor.line || k.place.index + maxKeyLength < l.cursor.index
  if !l.inFlow ∧ l.keyStart.any isOld then l.dropKey? else some l

/-! ## Tokens -/

/-- Adds a scalar, anchor or tag that ends at a place. -/
def addName (l : Layout) (t : Token) (p : Cursor) : Layout :=
  { l.push t with cursor := p, mayStartKey := false }

def addAnchor? (l : Layout) (token : String → Token) : Option Layout := do
  let l ← l.markKey?
  let (name, p) ← anchorName? l.cursor
  return l.addName (token name) p

def addTag? (l : Layout) : Option Layout := do
  let l ← l.markKey?
  let (handle, suffix, p) ← tag? l.inFlow l.cursor
  return l.addName (.tag handle suffix) p

/-- Adds a plain scalar; a key may start behind it if it ends with its line. -/
def addPlain? (l : Layout) : Option Layout := do
  let l := (← l.markKey?).closeNested
  let (text, p) ← plain? l.inFlow (l.indent + 1) l.cursor
  return { l.addName (.scalar true text) p with mayStartKey := p.inIndent }

/-- Adds a quoted scalar and skips the space behind it. -/
def addQuoted? (l : Layout) (quote : Char) : Option Layout := do
  let l ← l.markKey?
  let (text, p) ← quoted? quote l.inFlow l.indent l.cursor
  let (broken, p) ← skipSpace? (tabOnEmptyLine? l.indent) p
  return { l.addName (.scalar false text) p with
    mayStartKey := broken && !l.inFlow, closeColon := p.index }

def addBlockScalar? (l : Layout) (folded : Bool) : Option Layout := do
  let l := (← l.markKey?).closeNested
  let (text, p) ← block? folded l.indent l.cursor
  return { l.addName (.scalar false text) p with mayStartKey := true }

/-- Ends a mapping of a single entry that has no braces. -/
def closePair (l : Layout) : Layout :=
  if l.inPair then { l.push .closeMapping with inPair := false, marksKeys := false } else l

/-- Skips the next character and the blanks behind it. -/
def skipSign? (l : Layout) : Option Layout := do
  let (_, p) ← l.cursor.next.blanks?
  return { l with cursor := p }

/-- Opens a bracket or brace. -/
def openFlow? (l : Layout) (t : Token) : Option Layout := do
  let l := (← l.markKey?).openNested
  if l.outer.length = 255 then none
  else
    let l ← l.skipSign?
    return { l.push t with
      keyStart := none
      outer := l.keyStart :: l.outer
      mayStartKey := true
      marksKeys := l.marksKeys || t = .openMapping }

/-- Closes a bracket or brace. -/
def closeFlow? (l : Layout) (t : Token) : Option Layout := do
  let l ← l.dropKey?
  match l.outer with
  | [] => none
  | keyStart :: outer =>
    let inside := { l with keyStart := keyStart, outer := outer, mayStartKey := false }
    let l ← inside.closePair.skipSign?
    return { l.push t with closeColon := if l.inFlow then l.cursor.index else l.closeColon }

def addComma? (l : Layout) : Option Layout := do
  let l ← { ← l.dropKey? with mayStartKey := true }.closePair.skipSign?
  return l.push .comma

/-- Whether a dash of an item stands here. -/
def startsItem : List Char → Bool
  | '-' :: rest => startsSpace rest
  | _ => false

def addItem? (l : Layout) : Option Layout := do
  if l.inFlow ∨ !l.mayStartKey then none
  else
    let l := l.openBlock l.cursor.column l.tokens.length .openItems
    let (blanks, p) ← l.cursor.next.blanks?
    if '\t' ∈ blanks ∧ startsItem p.rest then none
    else
      let l := if p.rest.head?.any fun c => isBreak c || isFlowIndicator c then l.openNested else l
      let l ← l.dropKey?
      return { l.push .item with cursor := p, mayStartKey := true }

/-- Adds the question mark of a key. -/
def addKeyMark? (l : Layout) : Option Layout := do
  if !l.inFlow ∧ !l.mayStartKey then none
  else
    let l := l.openBlock l.cursor.column l.tokens.length .openEntries
    let l ← l.dropKey?
    let p := l.cursor.next
    if p.rest = [] ∨ p.rest.head? = some '\t' then none
    else
      let (_, p) ← skipSpace? (fun _ => none) p
      return { l.push .key with
        cursor := p, mayStartKey := !l.inFlow, marksKeys := l.marksKeys || l.inFlow }

/-- Skips a colon. A tab must not be all that sets off a word or dash behind it. -/
def skipColon? (p : Cursor) : Option Cursor :=
  let p := p.next
  if p.rest.head? ≠ some '\t' then some p
  else do
    let (blanks, q) ← p.blanks?
    if ' ' ∉ blanks ∧ q.rest.head?.any fun c => isWordChar c || c = '_' then none else some q

/-- Adds the colon of an entry, and marks its key if that had no mark. -/
def addValue? (l : Layout) : Option Layout := do
  let colon := l.cursor
  let p ← skipColon? colon
  let l := { l with cursor := p, inPair := l.inFlow && !l.marksKeys }
  match l.keyStart with
  | some k =>
    if l.inPair ∧ k.place.line < colon.line then none
    else
      let l := l.insert k.count .key
      let l := if l.inPair then l.insert k.count .openMapping else l
      let l := (l.openBlock k.place.column k.count .openEntries).openNested
      return { l.push .value with keyStart := none, mayStartKey := false }
  | none =>
    let l := if l.inPair then l.push .openMapping else l
    if !l.inFlow ∧ !l.mayStartKey then none
    else
      let l := (l.openBlock colon.column l.tokens.length .openEntries).openNested
      return { l.push .value with mayStartKey := !l.inFlow }

/-- Ends all blocks in front of something that concerns the whole document. -/
def leave? (l : Layout) : Option Layout := do
  let l ← (l.closeTo (-1)).dropKey?
  return { l with mayStartKey := false }

def addDirective? (l : Layout) : Option Layout := do
  let l ← l.leave?
  let (directive, p) ← directive? l.cursor
  return { l.push (.directive directive) with cursor := p }

def addDocumentStart? (l : Layout) : Option Layout := do
  let l ← l.leave?
  return { l.push .documentStart with cursor := l.cursor.skip 3 }

def addDocumentEnd? (l : Layout) : Option Layout := do
  let l ← l.leave?
  return { l.push .documentEnd with cursor := ← (l.cursor.skip 3).lineEnd? }

/-! ## Reading -/

/-- Adds the token that the text starts with. -/
def add? (l : Layout) : Option Layout :=
  match l.cursor.rest with
  | [] => none
  | c :: rest =>
    if l.cursor.column = 0 ∧ c = '%' then l.addDirective?
    else if l.cursor.isAtMark '-' then l.addDocumentStart?
    else if l.cursor.isAtMark '.' then l.addDocumentEnd?
    else if l.cursor.column < l.indent then none
    else
      match c with
      | '[' => l.openFlow? .openSequence
      | '\x7b' => l.openFlow? .openMapping
      | ']' => l.closeFlow? .closeSequence
      | '\x7d' => l.closeFlow? .closeMapping
      | ',' => l.addComma?
      | '*' => l.addAnchor? .alias
      | '&' => l.addAnchor? .anchor
      | '!' => l.addTag?
      | '\'' | '"' => l.addQuoted? c
      | '%' | '@' | '\x60' => none
      | '-' => if startsSpace rest then l.addItem? else l.addPlain?
      | '?' => if startsSpace rest then l.addKeyMark? else l.addPlain?
      | ':' =>
        let isClose := startsFlow rest || l.cursor.index = l.closeColon
        if startsSpace rest ∨ (l.inFlow ∧ isClose) then l.addValue? else l.addPlain?
      | '|' | '>' => if l.inFlow then l.addPlain? else l.addBlockScalar? (c = '>')
      | _ => l.addPlain?

/-- Skips the space in front of a token, and ends the blocks and keys that cannot go on there. -/
def settle? (l : Layout) : Option Layout := do
  let (broken, p) ← skipSpace? (tabOnEmptyLine? l.indent) l.cursor
  let l := { l with cursor := p, mayStartKey := l.mayStartKey || (broken && !l.inFlow) }
  let l ← l.dropOldKey?
  return l.closeTo p.column

/-- The tokens of the rest of a text; each of them takes something off it. -/
def tokens? (l : Layout) : Option (List Token) := do
  let settled ← l.settle?
  if settled.cursor.rest = [] then return (← settled.leave?).tokens.reverse
  else
    let next ← settled.add?
    if _ : next.cursor.rest.length < l.cursor.rest.length then tokens? next else none
termination_by l.cursor.rest.length

end Layout

/-- The tokens of a text. It ends at the first character that is zero. -/
def tokens? (s : String) : Option (List Token) :=
  Layout.tokens? { cursor := .start (s.toList.takeWhile (· ≠ '\x00')) }

end EventSourcing.Yaml
