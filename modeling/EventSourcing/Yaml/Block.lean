import EventSourcing.Yaml.Cursor

/-!
# Block scalars

A block scalar stands on lines of its own below a bar or an angle bracket. Behind a bar the lines
are kept; behind an angle bracket lines that start with a word are folded into one another. A sign
in the header says what becomes of the line ends behind the last line, a digit how far the lines
are indented.
-/

namespace EventSourcing.Yaml

/-- What becomes of the line ends behind the last line: one is kept, none or all. -/
inductive Chomping
  | clip
  | strip
  | keep
  deriving DecidableEq, Repr

namespace Chomping

/-- Takes a sign off a header. -/
def read (p : Cursor) : Option Chomping × Cursor :=
  match p.rest with
  | '+' :: _ => (some .keep, p.next)
  | '-' :: _ => (some .strip, p.next)
  | _ => (none, p)

end Chomping

/-- Takes a digit off a header, which must not be zero. -/
def increment? (p : Cursor) : Option (Nat × Cursor) :=
  match p.rest with
  | c :: _ =>
    if c = '0' then none
    else if c.isDigit then some (c.toNat - '0'.toNat, p.next)
    else some (0, p)
  | [] => some (0, p)

/-- Takes the sign and the digit of a header, in any order, and the rest of its line. -/
def blockHeader? (p : Cursor) : Option (Chomping × Nat × Cursor) := do
  let (first, p) := Chomping.read p
  let (increment, p) ← increment? p
  let (second, p) := if first.isSome then (none, p) else Chomping.read p
  return ((first.or second).getD .clip, increment, ← p.lineEnd?)

/-! ## Indentation -/

/-- Skips spaces up to a column. -/
def skipIndent (column : Nat) (p : Cursor) : Cursor :=
  p.skip ((p.rest.takeWhile (· = ' ')).length.min (column - p.column))

/-- Skips the indentation of a line and the empty lines in front of it, and counts them. -/
def skipEmptyLines (column : Nat) (p : Cursor) : Nat × Cursor :=
  let q := skipIndent column p
  if _h : q.rest.head?.any isBreak then
    let (breaks, r) := skipEmptyLines column q.next
    (breaks + 1, r)
  else (0, q)
termination_by p.rest.length
decreasing_by
  exact Nat.lt_of_lt_of_le (Cursor.length_next_lt (by intro hn; simp [q, hn] at _h))
    (Cursor.length_skip_le _ _)

/-- Skips empty lines and the indentation behind them: the widest of their indentations, how many
lines they are, and the first line with more on it. -/
def measureIndent (p : Cursor) : Nat × Nat × Cursor :=
  let q := p.skip (p.rest.takeWhile (· = ' ')).length
  if _h : q.rest.head?.any isBreak then
    let (widest, breaks, r) := measureIndent q.next
    (max q.column widest, breaks + 1, r)
  else (q.column, 0, q)
termination_by p.rest.length
decreasing_by
  exact Nat.lt_of_lt_of_le (Cursor.length_next_lt (by intro hn; simp [q, hn] at _h))
    (Cursor.length_skip_le _ _)

/-! ## Lines -/

/-- What stands between the line in front and a line with this start: a line end and so many empty
lines. Folding takes one line end away between two lines that start with words. -/
def joint (folded : Bool) (before after : Bool) (breaks : Nat) : List Char :=
  if folded ∧ before ∧ after then if breaks = 0 then [' '] else List.replicate breaks '\n'
  else List.replicate (breaks + 1) '\n'

/-- Where the lines of a block scalar end: whether a line end is left over there, and how many empty
lines are. -/
structure BlockEnd where
  broken : Bool
  breaks : Nat
  place : Cursor

/-- Takes the lines of a block scalar. `before?` tells whether the line in front, if there is one,
starts with a word; `breaks` counts the empty lines in front. -/
def blockLines? (folded : Bool) (column : Nat) (before? : Option Bool) (breaks : Nat) (p : Cursor) :
    Option (List Char × BlockEnd) :=
  if p.column ≠ column ∨ p.rest = [] ∨ (column = 0 ∧ p.isAtMark '.') then
    some ([], ⟨before?.isSome, breaks, p⟩)
  else
    let after := !p.rest.head?.any isBlank
    let front := match before? with
      | none => List.replicate breaks '\n'
      | some before => joint folded before after breaks
    let (line, q) := p.takeWhile fun _ => true
    if q.rest = [] then some (front ++ line, ⟨false, 0, q⟩)
    else
      let (breaks, r) := skipEmptyLines column q.next
      if _ : r.rest.length < p.rest.length then
        (blockLines? folded column (some after) breaks r).map fun (more, e) =>
          (front ++ line ++ more, e)
      else none
termination_by p.rest.length

/-- The line ends that are kept at the end of the text. -/
def Chomping.tail (chomping : Chomping) (column : Nat) (e : BlockEnd) : List Char :=
  let broken := if e.broken then ['\n'] else []
  let unended := if e.place.rest = [] ∧ max column 1 ≤ e.place.column then ['\n'] else []
  match chomping with
  | .strip => []
  | .clip => broken ++ unended
  | .keep => broken ++ unended ++ List.replicate e.breaks '\n'

/-- What a block scalar stands for that ends with the text before any line of it; `broken` tells
whether its header has ended. -/
def Chomping.emptyText (chomping : Chomping) (broken : Bool) (breaks : Nat) : List Char :=
  match chomping with
  | .strip => []
  | .clip => if broken then ['\n'] else []
  | .keep => List.replicate (if broken ∧ breaks = 0 then 1 else breaks) '\n'

/-- Takes a block scalar inside of a block with this indentation, if any; its sign is next. -/
def block? (folded : Bool) (indent : Int) (p : Cursor) : Option (String × Cursor) := do
  let (chomping, increment, q) ← blockHeader? p.next
  let q := q.next
  if q.rest.head? = some '\t' then none
  else
    let (column, breaks, r) :=
      if increment = 0 then
        let (widest, breaks, r) := measureIndent q
        (max widest (indent + 1).toNat, breaks, r)
      else
        let column := (max indent 0).toNat + increment
        (column, skipEmptyLines column q)
    if r.rest = [] then
      return (String.ofList (chomping.emptyText (r.line ≠ p.line) breaks), r)
    else if r.column < column ∧ indent < r.column then none
    else
      let (text, e) ← blockLines? folded column none breaks r
      return (String.ofList (text ++ chomping.tail column e), e.place)

end EventSourcing.Yaml
