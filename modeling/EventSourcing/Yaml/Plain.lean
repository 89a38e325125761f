import EventSourcing.Yaml.Cursor

/-!
# Scalars over several lines

A scalar is a row of words with gaps of space between them. Blanks in a gap stand for themselves; a
single line end stands for a space, and of several all but the first are kept. Plain scalars have
neither quotes nor escapes: they end where something else has to start.
-/

namespace EventSourcing.Yaml

/-! ## Gaps -/

/-- The space between two words of a scalar. -/
structure Gap where
  blanks : List Char := []
  /-- Whether a line end is part of it that does not count by itself. -/
  isBroken : Bool := false
  /-- The other line ends. -/
  breaks : Nat := 0
  deriving DecidableEq, Repr

namespace Gap

/-- What the space stands for. -/
def text (g : Gap) : List Char :=
  if g.isBroken ∧ g.breaks = 0 then [' '] else List.replicate g.breaks '\n' ++ g.blanks

/-- A line ends. -/
def addBreak (g : Gap) (inIndent : Bool) : Gap :=
  if inIndent then { g with breaks := g.breaks + 1 } else { g with blanks := [], isBroken := true }

/-- Takes space up to the next word; `tab?` goes on behind a tab in front of a word. -/
def read? (tab? : Cursor → Option Cursor) (g : Gap) (p : Cursor) : Option (Gap × Cursor) :=
  match _ : p.rest with
  | [] => some (g, p)
  | c :: _ =>
    if isBreak c then read? tab? (g.addBreak p.inIndent) p.next
    else if !isBlank c then some (g, p)
    else if !p.inIndent then read? tab? { g with blanks := g.blanks ++ [c] } p.next
    else if c = '\t' then do
      let q ← tab? p
      if _ : q.rest.length < p.rest.length then read? tab? g q else none
    else read? tab? g p.next
termination_by p.rest.length
decreasing_by all_goals first | assumption | exact Cursor.length_next_lt (by simp_all)

end Gap

/-! ## Plain scalars -/

/-- Whether a word of a plain scalar ends here: at space, at a colon that makes it a key, and inside
brackets at what has a meaning there. -/
def endsWord (inFlow : Bool) : List Char → Bool
  | [] => true
  | ':' :: rest => startsSpace rest || (inFlow && startsFlow rest)
  | c :: _ => isSpace c || (inFlow && isFlowIndicator c)

/-- The word that the text starts with. -/
def word (inFlow : Bool) : List Char → List Char
  | [] => []
  | c :: cs => if endsWord inFlow (c :: cs) then [] else c :: word inFlow cs

/-- A dash in front of a bracket or comma, which cannot start a word inside brackets. -/
def isBareDash : List Char → Bool
  | '-' :: rest => startsFlow rest
  | _ => false

/-- Takes the words of a plain scalar, whose lines start at the margin, behind a gap. -/
def plainWords? (inFlow : Bool) (margin : Int) (g : Gap) (p : Cursor) :
    Option (List Char × Cursor) := do
  if p.isAtBoundary ∨ p.rest.head? = some '#' then return ([], p)
  else if inFlow ∧ isBareDash p.rest then none
  else
    let word := word inFlow p.rest
    if word = [] then return ([], p)
    else
      let front := g.text ++ word
      let p' := p.skip word.length
      if ¬ p'.rest.head?.any isSpace then return (front, p')
      else
        let (g, q) ← Gap.read? (tabOnEmptyLine? margin) {} p'
        if ¬ inFlow ∧ q.column < margin then return (front, q)
        else if _ : q.rest.length < p.rest.length then
          let (more, r) ← plainWords? inFlow margin g q
          return (front ++ more, r)
        else none
termination_by p.rest.length

/-- Takes a plain scalar, of one word at least. -/
def plain? (inFlow : Bool) (margin : Int) (p : Cursor) : Option (String × Cursor) := do
  let (text, q) ← plainWords? inFlow margin {} p
  if text = [] ∨ (inFlow ∧ p.column < margin) then none else return (String.ofList text, q)

end EventSourcing.Yaml
