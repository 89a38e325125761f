import EventSourcing.Number.Integer

/-!
# Binary floating-point numbers of 64 bits

A finite number is `mantissa * 2 ^ exponent` with at most 53 bits of mantissa and an exponent of at
least -1074. A decimal text means the nearest such number, the even mantissa on a tie; a number is
written with the fewest digits that mean it again, and always positionally.
-/

namespace EventSourcing.Number

inductive Binary64
  | nan
  | infinite (negative : Bool)
  | finite (negative : Bool) (mantissa : Nat) (exponent : Int)
  deriving DecidableEq, Repr

/-- The quotient to the nearest integer, to the even one on a tie. -/
def divNearestEven (num den : Nat) : Nat :=
  let q := num / den
  let r := num % den
  if 2 * r > den ∨ (2 * r = den ∧ q % 2 = 1) then q + 1 else q

/-- The quotient to the nearest integer, away from zero on a tie. -/
def divNearestUp (num den : Nat) : Nat := (2 * num + den) / (2 * den)

/-- `n * b ^ e` as a fraction, for an exponent of either sign. -/
def scaled (n b : Nat) (e : Int) : Nat × Nat :=
  if 0 ≤ e then (n * Nat.pow b e.toNat, 1) else (n, Nat.pow b (-e).toNat)

namespace Binary64

/-- The least exponent of a finite number. -/
def minExponent : Int := -1074

/-- The largest exponent of a finite number. -/
def maxExponent : Int := 971

/-- The largest `e` with `2 ^ e ≤ num / den`, for positive numbers. -/
def log2Ratio (num den : Nat) : Int :=
  let e : Int := (num.log2 : Int) - den.log2
  let (n, _) := scaled num 2 (-e)
  let (d, _) := scaled den 2 e
  if n * 1 < d then e - 1 else e

/-- The number nearest to the fraction `num / den`. -/
def ofRatio (negative : Bool) (num den : Nat) : Binary64 :=
  if num = 0 then .finite negative 0 minExponent
  else
    let e := max minExponent (log2Ratio num den - 52)
    let (n, d) :=
      if 0 ≤ e then (num, den * Nat.pow 2 e.toNat) else (num * Nat.pow 2 (-e).toNat, den)
    let m := divNearestEven n d
    let (m, e) := if m = Nat.pow 2 53 then (Nat.pow 2 52, e + 1) else (m, e)
    if maxExponent < e then .infinite negative else .finite negative m e

/-- The nearest number, rounded to 53 bits, without a bound on its size. -/
def roundNat (n : Nat) : Nat :=
  let shift := n.log2 + 1 - 53
  divNearestEven n (Nat.pow 2 shift) * Nat.pow 2 shift

/-- The least natural number that rounds to infinity. -/
def overflow : Nat := Nat.pow 2 1024 - Nat.pow 2 970

/-- The number nearest to the one with these digits, times `10 ^ exponent`. What is far out of range
is not computed. -/
def ofDecimal (negative : Bool) (digits : List Nat) (exponent : Int) : Binary64 :=
  let digits := digits.dropWhile (· = 0)
  let magnitude := digits.length + exponent
  if digits = [] ∨ magnitude < -400 then .finite negative 0 minExponent
  else if 400 < magnitude then .infinite negative
  else
    let (n, d) := scaled (ofDigits digits) 10 exponent
    ofRatio negative n d

/-! ## Reading -/

/-- Reads `e`, an optional sign and digits; nothing at all means a zero exponent. -/
def exponent? : List Char → Option Int
  | [] => some 0
  | c :: cs =>
    if c = 'e' ∨ c = 'E' then
      match cs with
      | '-' :: ds => (digits? ds).map fun n => -(n : Int)
      | ds => (natural? ds).map Int.ofNat
    else none

/-- Reads digits with an optional point and exponent; a digit must stand on one side of the
point. -/
def unsigned? (negative : Bool) (cs : List Char) : Option Binary64 :=
  let whole := cs.takeWhile Char.isDigit
  let rest := cs.dropWhile Char.isDigit
  let (fraction, rest) := match rest with
    | '.' :: tail => (tail.takeWhile Char.isDigit, tail.dropWhile Char.isDigit)
    | _ => ([], rest)
  let digits := whole ++ fraction
  if digits = [] then none
  else (exponent? rest).map fun e =>
    ofDecimal negative (digits.map digitValue) (e - fraction.length)

/-- Reads `inf`, `infinity` and `nan` in any case, and numbers; a sign may stand in front of
each. -/
def read? (cs : List Char) : Option Binary64 :=
  let (negative, body) := match cs with
    | '-' :: tail => (true, tail)
    | '+' :: tail => (false, tail)
    | _ => (false, cs)
  let word := body.map Char.toLower
  if word ∈ ["inf".toList, "infinity".toList] then some (.infinite negative)
  else if word = "nan".toList then some .nan
  else unsigned? negative body

/-! ## Writing -/

/-- The largest `p` with `10 ^ p ≤ num / den`, for positive numbers, at most `start`. -/
def log10Ratio (num den : Nat) : Nat → Int → Int
  | 0, p => p
  | fuel + 1, p =>
    let (n, d) := scaled 1 10 p
    if n * den ≤ num * d then p else log10Ratio num den fuel (p - 1)

/-- Whether `num / den` is a decimal that means `mantissa * 2 ^ exponent`: it lies between the two
halfway points, which belong to an even mantissa. -/
def means (mantissa : Nat) (exponent : Int) (num den : Nat) : Bool :=
  let (below, scale) :=
    if mantissa = Nat.pow 2 52 ∧ minExponent < exponent then (4 * mantissa - 1, exponent - 2)
    else (4 * mantissa - 2, exponent - 2)
  let (s, t) := scaled 1 2 scale
  let low := below * s * den
  let high := (4 * mantissa + 2) * s * den
  let here := num * t
  if mantissa % 2 = 0 then low ≤ here && here ≤ high else low < here && here < high

/-- The shortest decimal of `mantissa * 2 ^ exponent`: its digits as a number, and the power of ten
of the last one. Of two shortest decimals it is the nearer, and the larger one on a tie. -/
def shortest (mantissa : Nat) (exponent : Int) : Nat × Int :=
  let (num, den) := scaled mantissa 2 exponent
  let start : Int := (log2Ratio num den * 30103) / 100000 + 1
  let top := log10Ratio num den 4 start
  let candidate (count : Nat) : Option (Nat × Int) :=
    let p := top + 1 - count
    let (s, t) := scaled 1 10 p
    let n := num * t
    let d := den * s
    let down := n / d
    let near := divNearestUp n d
    let far := if near = down then down + 1 else down
    let fits (k : Nat) := means mantissa exponent (k * s) t
    let written (k : Nat) := if k = Nat.pow 10 count then (k / 10, p + 1) else (k, p)
    if fits near then some (written near) else if fits far then some (written far) else none
  ((List.range 17).findSome? fun k => candidate (k + 1)).getD (num, 0)

/-- Writes `coefficient * 10 ^ exponent` without an exponent. -/
def positional (coefficient : Nat) (exponent : Int) : String :=
  if 0 ≤ exponent then toString (coefficient * Nat.pow 10 exponent.toNat)
  else
    let places := (-exponent).toNat
    let digits := (toString coefficient).toList
    let padded := List.replicate (places + 1 - digits.length) '0' ++ digits
    let cut := padded.length - places
    String.ofList (padded.take cut ++ '.' :: padded.drop cut)

def render : Binary64 → String
  | .nan => "NaN"
  | .infinite negative => if negative then "-inf" else "inf"
  | .finite negative m e =>
    let body :=
      if m = 0 then "0"
      else
        let (c, p) := shortest m e
        positional c p
    if negative then "-" ++ body else body

/-! ## Rounding to words -/

/-- The nearest natural number, halves rounded up, held between zero and `limit`; not-a-number and
negative numbers give zero. -/
def toWord (limit : Nat) : Binary64 → Nat
  | .nan => 0
  | .infinite negative => if negative then 0 else limit
  | .finite negative m e =>
    if negative then 0
    else
      let (n, d) := scaled m 2 e
      min limit (divNearestUp n d)

end Binary64

end EventSourcing.Number
