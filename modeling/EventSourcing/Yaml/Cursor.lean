/-!
# Places in YAML text

A cursor is a place in a text with its line and column. Lines end at a line feed, a carriage return,
or both together. Going on shortens what is left (`length_next_lt`).
-/

namespace EventSourcing.Yaml

def isBreak (c : Char) : Bool := c = '\n' || c = '\r'

def isBlank (c : Char) : Bool := c = ' ' || c = '\t'

def isSpace (c : Char) : Bool := isBlank c || isBreak c

/-- The characters that have a meaning of their own inside brackets. -/
def isFlowIndicator (c : Char) : Bool := c ∈ [',', '[', ']', '\x7b', '\x7d']

/-- Whether space follows, or nothing. -/
def startsSpace (cs : List Char) : Bool := cs.head?.all isSpace

/-- Whether a line ends here. -/
def endsLine (cs : List Char) : Bool := cs.head?.all isBreak

def startsFlow (cs : List Char) : Bool := cs.head?.any isFlowIndicator

structure Cursor where
  rest : List Char
  index : Nat
  line : Nat
  column : Nat
  /-- Whether only blanks stand in front of the place on its line. -/
  inIndent : Bool
  deriving DecidableEq, Repr

namespace Cursor

def start (cs : List Char) : Cursor := ⟨cs, 0, 0, 0, true⟩

/-- Goes on by one character, or by both characters of a line end. -/
def next (p : Cursor) : Cursor :=
  match p.rest with
  | [] => p
  | '\r' :: '\n' :: rest => ⟨rest, p.index + 2, p.line + 1, 0, true⟩
  | c :: rest =>
    if isBreak c then ⟨rest, p.index + 1, p.line + 1, 0, true⟩
    else ⟨rest, p.index + 1, p.line, p.column + 1, p.inIndent && isBlank c⟩

def skip (p : Cursor) : Nat → Cursor
  | 0 => p
  | n + 1 => p.next.skip n

/-- Takes characters off the line. -/
def takeWhile (p : Cursor) (keep : Char → Bool) : List Char × Cursor :=
  let taken := p.rest.takeWhile fun c => keep c && !isBreak c
  (taken, p.skip taken.length)

/-- Skips what is left of the line. -/
def skipLine (p : Cursor) : Cursor := (p.takeWhile fun _ => true).2

/-- Takes blanks off the line and skips a comment behind them, which needs a blank in front. -/
def blanks? (p : Cursor) : Option (List Char × Cursor) :=
  let (blanks, p) := p.takeWhile isBlank
  match p.rest with
  | '#' :: _ => if blanks = [] then none else some (blanks, p.skipLine)
  | _ => some (blanks, p)

/-- Goes on to the end of a line on which nothing but a comment is left. -/
def lineEnd? (p : Cursor) : Option Cursor := do
  let (_, p) ← p.blanks?
  if endsLine p.rest then some p else none

/-- Whether the line starts with three times the character and nothing that goes on with it. -/
def isAtMark (p : Cursor) (c : Char) : Bool :=
  p.column = 0 && p.rest.take 3 = [c, c, c] && startsSpace (p.rest.drop 3)

/-- Whether a document starts or ends here. -/
def isAtBoundary (p : Cursor) : Bool := p.isAtMark '-' || p.isAtMark '.'

theorem length_next_lt {p : Cursor} (h : p.rest ≠ []) : p.next.rest.length < p.rest.length := by
  unfold next
  split
  · simp_all
  · next rest hr => simp only [hr, List.length_cons]; omega
  · split <;> simp_all

theorem length_next_le (p : Cursor) : p.next.rest.length ≤ p.rest.length := by
  by_cases h : p.rest = []
  · simp [next, h]
  · exact Nat.le_of_lt (length_next_lt h)

theorem length_skip_le (p : Cursor) (n : Nat) : (p.skip n).rest.length ≤ p.rest.length := by
  induction n generalizing p with
  | zero => exact Nat.le_refl _
  | succ n ih => exact Nat.le_trans (ih p.next) (length_next_le p)

end Cursor

/-! ## Space -/

/-- Goes on behind a tab. In front of the margin a line may have one only if it is empty. -/
def tabOnEmptyLine? (margin : Int) (p : Cursor) : Option Cursor :=
  if p.inIndent ∧ p.column < margin then p.lineEnd? else some p.next

/-- Goes on behind a tab, which may not stand in front of the margin. -/
def tabBehindMargin? (margin : Int) (p : Cursor) : Option Cursor :=
  if p.inIndent ∧ p.column < margin then none else some p.next

/-- Skips space and comments, and tells whether a line has ended; `tab?` goes on behind a tab. -/
def skipSpace? (tab? : Cursor → Option Cursor) (p : Cursor) : Option (Bool × Cursor) :=
  match p.rest with
  | [] => some (false, p)
  | c :: _ =>
    let next? :=
      if c = '\t' then tab? p
      else if c = '#' then some p.skipLine
      else if isSpace c then some p.next
      else none
    match next? with
    | none => if c = '\t' then none else some (false, p)
    | some q =>
      if _ : q.rest.length < p.rest.length then
        (skipSpace? tab? q).map fun (broken, r) => (broken || isBreak c, r)
      else none
termination_by p.rest.length

end EventSourcing.Yaml
