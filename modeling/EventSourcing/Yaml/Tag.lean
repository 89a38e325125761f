import EventSourcing.Yaml.Quoted

/-!
# Names in YAML text

A node may have an anchor, which other places refer to, and a tag, which says what it is. A tag is
written out in full or with a handle for its front, which a directive may declare.
-/

namespace EventSourcing.Yaml

/-! ## Anchors -/

def isAnchorChar (c : Char) : Bool := !isSpace c && !isFlowIndicator c && c ≠ '\ufeff'

/-- Takes the name of an anchor, behind its sign. -/
def anchorName? (p : Cursor) : Option (String × Cursor) :=
  let (name, p) := p.next.takeWhile isAnchorChar
  if name = [] then none else some (String.ofList name, p)

/-! ## Escapes -/

def isWordChar (c : Char) : Bool := c.isAlphanum || c = '-'

def isUriChar (c : Char) : Bool := isWordChar c || c ∈ "#;/?:@&=+$,_.!~*'()[]%".toList

def isTagChar (c : Char) : Bool := isUriChar c && !isFlowIndicator c && c ≠ '!'

/-- The byte that a percent sign and two digits stand for. -/
def byte? : List Char → Option Nat
  | '%' :: a :: b :: _ => Number.digitsOf? 16 [a, b]
  | _ => none

/-- How many bytes an encoded character has that starts with this one. -/
def byteCount? (byte : Nat) : Option Nat :=
  if byte < 0x80 then some 1
  else if byte / 0x20 = 0x06 then some 2
  else if byte / 0x10 = 0x0e then some 3
  else if byte / 0x08 = 0x1e then some 4
  else none

/-- The bytes behind the first one of a character, put together with it. -/
def bytesBehind? (code : Nat) (cs : List Char) : Nat → Option Nat
  | 0 => some code
  | n + 1 => do
    let byte ← byte? cs
    if byte / 0x40 = 0x02 then bytesBehind? (code * 0x100 + byte) (cs.drop 3) n else none

/-- The character whose code is made of escaped bytes, and how long they are. -/
def uriEscape? (cs : List Char) : Option (Char × Nat) := do
  let first ← byte? cs
  let count ← byteCount? first
  let code ← bytesBehind? first (cs.drop 3) (count - 1)
  return (← charOfCode? code, 3 * count)

/-- Takes characters of this sort with their escapes undone. -/
def uri? (keep : Char → Bool) (p : Cursor) : Option (List Char × Cursor) :=
  match _ : p.rest with
  | [] => some ([], p)
  | c :: _ =>
    if !keep c then some ([], p)
    else if c ≠ '%' then (uri? keep p.next).map fun (cs, q) => (c :: cs, q)
    else do
      let (e, length) ← uriEscape? p.rest
      let (cs, q) ← uri? keep (p.next.skip (length - 1))
      return (e :: cs, q)
termination_by p.rest.length
decreasing_by
  · exact Cursor.length_next_lt (by simp_all)
  · exact Nat.lt_of_le_of_lt (Cursor.length_skip_le _ _) (Cursor.length_next_lt (by simp_all))

/-! ## Tags -/

/-- Takes a handle: an exclamation mark, then possibly a word and another mark. -/
def handle? (p : Cursor) : Option (List Char × Cursor) :=
  if p.rest.head? ≠ some '!' then none
  else
    let (word, q) := p.next.takeWhile fun c => isWordChar c || c = '_'
    if q.rest.head? = some '!' then some ('!' :: word ++ ['!'], q.next)
    else some ('!' :: word, q)

/-- Whether a handle has a mark on either side. -/
def isFullHandle (handle : List Char) : Bool := 2 ≤ handle.length && handle.getLast? = some '!'

/-- Takes a tag, as handle and suffix. A tag in full has an empty handle; a single mark is a
suffix. -/
def tag? (inFlow : Bool) (p : Cursor) : Option (String × String × Cursor) := do
  let (handle, suffix, q) ←
    if p.rest.take 2 = ['!', '<'] then do
      let (uri, q) ← uri? isUriChar (p.skip 2)
      if q.rest.head? = some '>' then some (([] : List Char), uri, q.next) else none
    else do
      let (handle, q) ← handle? p
      let (suffix, q) ← uri? isTagChar q
      if isFullHandle handle then if suffix = [] then none else some (handle, suffix, q)
      else
        let suffix := handle.drop 1 ++ suffix
        some (if suffix = [] then ([], ['!'], q) else (['!'], suffix, q))
  if startsSpace q.rest ∨ (inFlow ∧ startsFlow q.rest) then
    return (String.ofList handle, String.ofList suffix, q)
  else none

/-! ## Directives -/

/-- Takes a part of a version: one to nine digits. -/
def versionPart? (p : Cursor) : Option Cursor :=
  let (digits, q) := p.takeWhile Char.isDigit
  if digits = [] ∨ 9 < digits.length then none else some q

/-- Takes a version. -/
def version? (p : Cursor) : Option Cursor := do
  let q ← versionPart? (p.takeWhile isBlank).2
  if q.rest.head? = some '.' then versionPart? q.next else none

/-- Takes the front of a tag that a handle stands for. -/
def tagFront? (p : Cursor) : Option (List Char × Cursor) := do
  if p.rest.head? = some '!' then
    let (uri, q) ← uri? isUriChar p.next
    return ('!' :: uri, q)
  else if p.rest.head?.any isTagChar then uri? isUriChar p
  else none

/-- Takes the declaration of a handle. -/
def declaration? (p : Cursor) : Option (String × String × Cursor) := do
  let (handle, q) ← handle? (p.takeWhile isBlank).2
  if handle ≠ ['!'] ∧ !isFullHandle handle then none
  else
    let (front, r) ← tagFront? (q.takeWhile isBlank).2
    if startsSpace r.rest then return (String.ofList handle, String.ofList front, r) else none

/-- What a document is told in front. -/
inductive Directive
  | version
  /-- Declares what a handle stands for; other directives are taken for an empty handle. -/
  | handle (name front : String)
  deriving DecidableEq, Repr

/-- Takes a directive and the rest of its line; its percent sign is next. -/
def directive? (p : Cursor) : Option (Directive × Cursor) := do
  let (name, q) := p.next.takeWhile fun c => isWordChar c || c = '_'
  if name = [] ∨ !startsSpace q.rest then none
  else
    let (directive, r) ← match String.ofList name with
      | "YAML" => (version? q).map fun r => (Directive.version, r)
      | "TAG" => (declaration? q).map fun (name, front, r) => (Directive.handle name front, r)
      | _ => some (Directive.handle "" "", q.skipLine)
    return (directive, (← r.lineEnd?).next)

end EventSourcing.Yaml
