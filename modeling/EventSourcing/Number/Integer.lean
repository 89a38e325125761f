/-!
# Integers written in decimal

Digits, an optional sign, and nothing else: no blanks, no separators, leading zeros allowed. The
ranges of the machine words that the numbers have to fit are constants.
-/

namespace EventSourcing.Number

/-- The largest 64-bit word. -/
def maxWord64 : Nat := 0xFFFFFFFFFFFFFFFF

/-- The largest 32-bit word. -/
def maxWord32 : Nat := 0xFFFFFFFF

/-- The integers of 64 bits with a sign. -/
abbrev FitsInt64 (n : Int) : Prop := -0x8000000000000000 ≤ n ∧ n < 0x8000000000000000

def digitValue (c : Char) : Nat := c.toNat - '0'.toNat

/-- The number with these digits, most significant first. -/
def ofDigits (digits : List Nat) : Nat := digits.foldl (fun n d => n * 10 + d) 0

/-- The value of a digit of base sixteen, whose letters are of either case. -/
def hexDigit? (c : Char) : Option Nat :=
  if c.isDigit then some (digitValue c)
  else if 'a' ≤ c.toLower ∧ c.toLower ≤ 'f' then some (c.toLower.toNat - 'a'.toNat + 10)
  else none

/-- Reads one digit or more of a base of at most sixteen, up to the end. -/
def digitsOf? (base : Nat) (cs : List Char) : Option Nat :=
  if cs = [] then none
  else cs.foldlM (fun n c => ((hexDigit? c).filter (· < base)).map (n * base + ·)) 0

/-- Reads one digit or more, up to the end. -/
def digits? (cs : List Char) : Option Nat :=
  if cs ≠ [] ∧ cs.all Char.isDigit then some (ofDigits (cs.map digitValue)) else none

/-- Reads an unsigned number; a plus sign may stand in front. -/
def natural? : List Char → Option Nat
  | '+' :: cs => digits? cs
  | cs => digits? cs

/-- Reads a number with an optional sign. -/
def integer? : List Char → Option Int
  | '-' :: cs => (digits? cs).map fun n => -(n : Int)
  | cs => (natural? cs).map Int.ofNat

end EventSourcing.Number
