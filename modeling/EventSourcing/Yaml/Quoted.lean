import EventSourcing.Number.Integer
import EventSourcing.Table
import EventSourcing.Yaml.Plain

/-!
# Quoted scalars

Between single quotes only the quote itself is written in a special way, twice. Between double
quotes a backslash starts an escape, and one at the end of a line joins it to the next one.
-/

namespace EventSourcing.Yaml

/-! ## Escapes -/

/-- The characters that a backslash and one letter stand for. -/
def namedEscapes : Table Char Char :=
  [('0', '\x00'), ('a', '\x07'), ('b', '\x08'), ('t', '\t'), ('\t', '\t'), ('n', '\n'),
    ('v', '\x0b'), ('f', '\x0c'), ('r', '\r'), ('e', '\x1b'), (' ', ' '), ('"', '"'), ('/', '/'),
    ('\\', '\\'), ('N', '\u0085'), ('_', '\u00a0'), ('L', '\u2028'), ('P', '\u2029')]

/-- The number of digits of the character code behind a backslash and this letter. -/
def codeLength? : Char → Option Nat
  | 'x' => some 2
  | 'u' => some 4
  | 'U' => some 8
  | _ => none

def charOfCode? (n : Nat) : Option Char :=
  if h : n.isValidChar then some (Char.ofNatAux n h) else none

/-- The character that an escape stands for, and the length of what is behind its backslash. -/
def escape? : List Char → Option (Char × Nat)
  | [] => none
  | c :: cs =>
    match codeLength? c with
    | none => (namedEscapes.get? c).map fun e => (e, 1)
    | some n =>
      if (cs.take n).length = n then
        ((Number.digitsOf? 16 (cs.take n)).bind charOfCode?).map fun e => (e, n + 1)
      else none

/-! ## Words -/

/-- A word between single quotes. -/
def singleWord (p : Cursor) : List Char × Cursor :=
  match _ : p.rest with
  | [] => ([], p)
  | c :: cs =>
    if isSpace c then ([], p)
    else if c = '\'' then
      if cs.head? = some '\'' then
        let (word, q) := singleWord p.next.next
        ('\'' :: word, q)
      else ([], p)
    else
      let (word, q) := singleWord p.next
      (c :: word, q)
termination_by p.rest.length
decreasing_by
  · exact Nat.lt_of_le_of_lt (Cursor.length_next_le _) (Cursor.length_next_lt (by simp_all))
  · exact Cursor.length_next_lt (by simp_all)

/-- A word between double quotes; an escaped line end belongs to the word in front of it. -/
def doubleWord? (p : Cursor) : Option (List Char × Cursor) :=
  match _ : p.rest with
  | [] => some ([], p)
  | c :: cs =>
    if isSpace c ∨ c = '"' then some ([], p)
    else if c ≠ '\\' then (doubleWord? p.next).map fun (word, q) => (c :: word, q)
    else if cs.head?.any isBreak then some ([], p.next.next)
    else do
      let (e, length) ← escape? cs
      let (word, q) ← doubleWord? (p.next.skip length)
      return (e :: word, q)
termination_by p.rest.length
decreasing_by
  · exact Cursor.length_next_lt (by simp_all)
  · exact Nat.lt_of_le_of_lt (Cursor.length_skip_le _ _) (Cursor.length_next_lt (by simp_all))

def quotedWord? (quote : Char) (p : Cursor) : Option (List Char × Cursor) :=
  if quote = '"' then doubleWord? p else some (singleWord p)

/-! ## Scalars -/

/-- Takes the words and gaps up to the closing quote. Lines start at the margin. -/
def quotedText? (quote : Char) (margin : Int) (p : Cursor) : Option (List Char × Cursor) := do
  if p.isAtBoundary ∨ p.rest = [] ∨ p.column < margin then none
  else
    let (word, q) ← quotedWord? quote p
    if q.rest.head? = some quote then return (word, q.next)
    else
      let (gap, r) ← Gap.read? (tabBehindMargin? margin) {} q
      if _ : r.rest.length < p.rest.length then
        let (more, s) ← quotedText? quote margin r
        return (word ++ gap.text ++ more, s)
      else none
termination_by p.rest.length

/-- Whether a scalar may end in front of this text; one over several lines is no key outside of
brackets. -/
def mayFollowQuote (inFlow sameLine : Bool) (cs : List Char) : Bool :=
  match cs with
  | ':' :: _ => inFlow || sameLine
  | ',' :: _ | ']' :: _ | '\x7d' :: _ => inFlow
  | cs => endsLine cs

/-- Takes a quoted scalar, whose opening quote is next, and the blanks behind it. -/
def quoted? (quote : Char) (inFlow : Bool) (margin : Int) (p : Cursor) :
    Option (String × Cursor) := do
  let (text, q) ← quotedText? quote margin p.next
  let (_, q) ← q.blanks?
  if mayFollowQuote inFlow (p.line = q.line) q.rest then return (String.ofList text, q) else none

end EventSourcing.Yaml
