import EventSourcing.Number.Binary64
import EventSourcing.Text.Bytes

/-!
# Numbers in JSON text

A number is kept as it is written: sign, digits, fraction and exponent. `toInt?` is its value as a
plain integer, and `isFinite` says whether a 64-bit float can hold it when its digits are gathered
into one 64-bit word first.
-/

namespace EventSourcing.Json

open EventSourcing.Number (maxWord64)

/-- A number as written: an empty fraction means that there is no point. -/
structure Numeral where
  negative : Bool
  whole : List Nat
  fraction : List Nat
  exponent : Option (Bool × List Nat)
  deriving DecidableEq, Repr

/-! ## Reading -/

def isDigit (b : UInt8) : Bool := 0x30 ≤ b && b ≤ 0x39

/-- Splits off the leading digits. -/
def takeDigits (bs : Bytes) : List Nat × Bytes :=
  ((bs.takeWhile isDigit).map fun b => b.toNat - 0x30, bs.dropWhile isDigit)

namespace Numeral

/-- Reads a point and the digits after it, at least one. -/
def fraction? (bs : Bytes) : Option (List Nat × Bytes) :=
  match bs with
  | 0x2E :: rest =>
    let (digits, rest) := takeDigits rest
    if digits = [] then none else some (digits, rest)
  | _ => some ([], bs)

/-- Reads an exponent: its sign and its digits, at least one. -/
def exponent? (bs : Bytes) : Option (Option (Bool × List Nat) × Bytes) :=
  match bs with
  | b :: rest =>
    if b = 0x65 ∨ b = 0x45 then
      let (negative, rest) := match rest with
        | 0x2D :: tail => (true, tail)
        | 0x2B :: tail => (false, tail)
        | _ => (false, rest)
      let (digits, rest) := takeDigits rest
      if digits = [] then none else some (some (negative, digits), rest)
    else some (none, bs)
  | [] => some (none, bs)

/-- Reads a number from the front; a leading zero stands alone. -/
def read? (bs : Bytes) : Option (Numeral × Bytes) :=
  let (negative, rest) := match bs with
    | 0x2D :: tail => (true, tail)
    | _ => (false, bs)
  let (whole, rest) := takeDigits rest
  match whole with
  | [] => none
  | 0 :: _ :: _ => none
  | _ => do
    let (fraction, rest) ← fraction? rest
    let (exponent, rest) ← exponent? rest
    some (⟨negative, whole, fraction, exponent⟩, rest)

/-! ## Values -/

/-- Gathers digits behind a number as long as it fits a 64-bit word, and counts them. -/
def gather (n count : Nat) : List Nat → Nat × Nat
  | [] => (n, count)
  | d :: ds => if maxWord64 < n * 10 + d then (n, count) else gather (n * 10 + d) (count + 1) ds

/-- The value of a plain integer whose digits fit a 64-bit word. A negative zero, a fraction or an
exponent makes it none. -/
def toInt? (n : Numeral) : Option Int :=
  let (value, taken) := gather 0 0 n.whole
  if taken < n.whole.length ∨ n.fraction ≠ [] ∨ n.exponent.isSome ∨ (n.negative ∧ value = 0) then
    none
  else some (if n.negative then -(value : Int) else value)

/-- The number with these digits, or the limit if it is larger. -/
def ofDigitsWithin (limit : Nat) (digits : List Nat) : Nat :=
  digits.foldl (fun n d => min limit (n * 10 + d)) 0

/-- Whether the number is held by a 64-bit float: the gathered digits and the power of ten are
rounded, and so is their product. Numbers too small to hold are zero, not errors. What is far out
of range is not computed. -/
def isFinite (n : Numeral) : Bool :=
  let (lead, count) := gather 0 0 n.whole
  let (significand, taken) := gather lead count n.fraction
  let limit := n.whole.length + n.fraction.length + 309
  let shift : Int := match n.exponent with
    | none => 0
    | some (true, digits) => -(ofDigitsWithin limit digits : Int)
    | some (false, digits) => ofDigitsWithin limit digits
  let e : Int := (n.whole.length : Int) - taken + shift
  if significand = 0 ∨ e < 0 then true
  else if 308 < e then false
  else Number.Binary64.roundNat significand * Number.Binary64.roundNat (Nat.pow 10 e.toNat)
    < Number.Binary64.overflow

/-! ## Lengths -/

theorem length_takeDigits_le (bs : Bytes) : (takeDigits bs).2.length ≤ bs.length :=
  (List.dropWhile_sublist _).length_le

theorem length_takeDigits_lt {bs : Bytes} (h : (takeDigits bs).1 ≠ []) :
    (takeDigits bs).2.length < bs.length := by
  cases bs with
  | nil => simp [takeDigits] at h
  | cons b rest =>
    by_cases hb : isDigit b = true
    · have := length_takeDigits_le rest
      simp only [takeDigits, List.dropWhile_cons, hb, ↓reduceIte, List.length_cons] at this ⊢
      omega
    · simp [takeDigits, hb] at h

theorem length_fraction?_le {bs rest : Bytes} {ds : List Nat} (h : fraction? bs = some (ds, rest)) :
    rest.length ≤ bs.length := by
  unfold fraction? at h
  split at h
  · rename_i tail
    have := length_takeDigits_le tail
    grind
  · grind

theorem length_exponent?_le {bs rest : Bytes} {e : Option (Bool × List Nat)}
    (h : exponent? bs = some (e, rest)) : rest.length ≤ bs.length := by
  unfold exponent? at h
  split at h
  · rename_i b tail
    split at h
    · have h0 := length_takeDigits_le tail
      have h1 := fun t : Bytes => length_takeDigits_le t
      split at h
      grind
    · grind
  · grind

/-- Reading a number takes at least one byte. -/
theorem length_read?_lt {bs rest : Bytes} {n : Numeral} (h : read? bs = some (n, rest)) :
    rest.length < bs.length := by
  simp only [read?] at h
  split at h
  · simp at h
  · simp at h
  · rename_i hne _
    simp only [Option.bind_eq_bind, Option.bind_eq_some_iff, Option.some.injEq, Prod.mk.injEq,
      Prod.exists] at h
    obtain ⟨fr, r1, hf, ex, r2, he, -, rfl⟩ := h
    have h1 := length_fraction?_le hf
    have h2 := length_exponent?_le he
    have h3 := @length_takeDigits_lt (match bs with
      | 0x2D :: tail => (true, tail)
      | _ => (false, bs)).2 (by simpa using hne)
    have h4 : (match bs with
      | 0x2D :: tail => (true, tail)
      | _ => (false, bs)).2.length ≤ bs.length := by
      split <;> simp
    omega

end Numeral

end EventSourcing.Json
