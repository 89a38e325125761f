import EventSourcing.Json.Numeral
import EventSourcing.Text.Prefix

/-!
# Tokens of JSON text

A text is cut into tokens before its structure is looked at. A string token keeps its content, or
nothing when the content is no text: bytes that are not UTF-8, or half of a surrogate pair. Such a
string is still a token, because the values of unknown members are never read.
-/

namespace EventSourcing.Json

inductive Token
  | openArray
  | closeArray
  | openObject
  | closeObject
  | comma
  | colon
  | null
  | bool (value : Bool)
  | number (value : Numeral)
  | text (content : Option String)
  deriving DecidableEq, Repr

/-! ## Strings -/

def quote : UInt8 := 0x22

def backslash : UInt8 := 0x5C

/-- A part of a string: a byte that stands for itself, or an escaped UTF-16 unit. -/
inductive Piece
  | byte (value : UInt8)
  | unit (value : Nat)
  deriving DecidableEq, Repr

def hexDigit? (b : UInt8) : Option Nat :=
  if 0x30 ≤ b ∧ b ≤ 0x39 then some (b.toNat - 0x30)
  else if 0x61 ≤ b ∧ b ≤ 0x66 then some (b.toNat - 0x61 + 10)
  else if 0x41 ≤ b ∧ b ≤ 0x46 then some (b.toNat - 0x41 + 10)
  else none

def hexUnit? (a b c d : UInt8) : Option Nat := do
  let a ← hexDigit? a
  let b ← hexDigit? b
  let c ← hexDigit? c
  let d ← hexDigit? d
  some (((a * 16 + b) * 16 + c) * 16 + d)

/-- The byte that a one-letter escape stands for. -/
def shortEscape? (b : UInt8) : Option UInt8 :=
  if b = quote ∨ b = backslash ∨ b = 0x2F then some b
  else if b = 0x62 then some 0x08
  else if b = 0x66 then some 0x0C
  else if b = 0x6E then some 0x0A
  else if b = 0x72 then some 0x0D
  else if b = 0x74 then some 0x09
  else none

/-- Reads a string after its opening quote, up to and with the closing one. -/
def pieces? : Bytes → Option (List Piece × Bytes)
  | [] => none
  | b :: rest =>
    if b = quote then some ([], rest)
    else if b < 0x20 then none
    else if b = backslash then
      match rest with
      | [] => none
      | e :: rest =>
        if e = 0x75 then
          match rest with
          | a :: b :: c :: d :: rest => do
            let unit ← hexUnit? a b c d
            let (pieces, rest) ← pieces? rest
            some (.unit unit :: pieces, rest)
          | _ => none
        else do
          let byte ← shortEscape? e
          let (pieces, rest) ← pieces? rest
          some (.byte byte :: pieces, rest)
    else do
      let (pieces, rest) ← pieces? rest
      some (.byte b :: pieces, rest)

/-- The bytes of a string; a high surrogate needs the low one right behind it. -/
def assemble? : List Piece → Option Bytes
  | [] => some []
  | .byte b :: ps => (assemble? ps).map (b :: ·)
  | .unit u :: ps =>
    if u < 0xD800 ∨ 0xE000 ≤ u then (assemble? ps).map (String.utf8EncodeChar (Char.ofNat u) ++ ·)
    else if 0xDC00 ≤ u then none
    else
      match ps with
      | .unit v :: ps =>
        if 0xDC00 ≤ v ∧ v < 0xE000 then
          let point := 0x10000 + (u - 0xD800) * 0x400 + (v - 0xDC00)
          (assemble? ps).map (String.utf8EncodeChar (Char.ofNat point) ++ ·)
        else none
      | _ => none

def content? (ps : List Piece) : Option String := (assemble? ps).bind Bytes.text?

/-! ## Scanning -/

/-- Space, tab, line feed and carriage return. -/
def isBlank (b : UInt8) : Bool := b = 0x20 || b = 0x09 || b = 0x0A || b = 0x0D

def word? (word : String) (token : Token) (bs : Bytes) : Option (Token × Bytes) :=
  ((Bytes.ofString word).isPrefixOf? bs).map fun rest => (token, rest)

/-- Reads the token that starts with `b`. -/
def next? (b : UInt8) (rest : Bytes) : Option (Token × Bytes) :=
  if b = 0x5B then some (.openArray, rest)
  else if b = 0x5D then some (.closeArray, rest)
  else if b = 0x7B then some (.openObject, rest)
  else if b = 0x7D then some (.closeObject, rest)
  else if b = 0x2C then some (.comma, rest)
  else if b = 0x3A then some (.colon, rest)
  else if b = quote then (pieces? rest).map fun (ps, rest) => (.text (content? ps), rest)
  else if b = 0x74 then word? "rue" (.bool true) rest
  else if b = 0x66 then word? "alse" (.bool false) rest
  else if b = 0x6E then word? "ull" .null rest
  else (Numeral.read? (b :: rest)).map fun (n, rest) => (.number n, rest)

theorem length_pieces?_lt {bs rest : Bytes} {ps : List Piece} (h : pieces? bs = some (ps, rest)) :
    rest.length < bs.length := by
  fun_induction pieces? bs generalizing ps rest <;>
    simp_all [Option.bind_eq_some_iff] <;> grind

theorem length_word?_le {w : String} {t t' : Token} {bs rest : Bytes}
    (h : word? w t bs = some (t', rest)) : rest.length ≤ bs.length := by
  simp only [word?, Option.map_eq_some_iff, Prod.mk.injEq] at h
  obtain ⟨r, hr, -, rfl⟩ := h
  rw [isPrefixOf?_eq_some_iff.1 hr]
  simp

/-- A token takes at least its first byte. -/
theorem length_next?_lt {b : UInt8} {bs rest : Bytes} {t : Token}
    (h : next? b bs = some (t, rest)) :
    rest.length < (b :: bs).length := by
  simp only [next?] at h
  split at h <;> try grind
  split at h <;> try grind
  split at h <;> try grind
  split at h <;> try grind
  split at h <;> try grind
  split at h <;> try grind
  split at h
  · simp only [Option.map_eq_some_iff, Prod.mk.injEq, Prod.exists] at h
    obtain ⟨ps, r, hp, -, rfl⟩ := h
    have := length_pieces?_lt hp
    simp only [List.length_cons]
    omega
  · split at h
    · have := length_word?_le h
      simp only [List.length_cons]
      omega
    · split at h
      · have := length_word?_le h
        simp only [List.length_cons]
        omega
      · split at h
        · have := length_word?_le h
          simp only [List.length_cons]
          omega
        · simp only [Option.map_eq_some_iff, Prod.mk.injEq, Prod.exists] at h
          obtain ⟨n, r, hn, -, rfl⟩ := h
          exact Numeral.length_read?_lt hn

/-- All tokens of a text. -/
def scan (bs : Bytes) : Option (List Token) :=
  match _hb : bs.dropWhile isBlank with
  | [] => some []
  | b :: rest =>
    match _hn : next? b rest with
    | none => none
    | some (token, rest) => (scan rest).map (token :: ·)
termination_by bs.length
decreasing_by
  have h1 := length_next?_lt _hn
  have h2 := (List.dropWhile_sublist (p := isBlank) (l := bs)).length_le
  rw [_hb] at h2
  omega

end EventSourcing.Json
