import EventSourcing.Json.Token

/-!
# Writing JSON text

Documents are written without blanks. In a string the quote, the backslash and the bytes below 0x20
are escaped, the latter by a letter where there is one, and nothing else is.
-/

namespace EventSourcing.Json

def hexDigit (n : Nat) : UInt8 := if n < 10 then (0x30 + n).toUInt8 else (0x61 + (n - 10)).toUInt8

/-- The written form of one byte of a string. -/
def escape (b : UInt8) : Bytes :=
  if b = quote ∨ b = backslash then [backslash, b]
  else if b = 0x08 then [backslash, 0x62]
  else if b = 0x09 then [backslash, 0x74]
  else if b = 0x0A then [backslash, 0x6E]
  else if b = 0x0C then [backslash, 0x66]
  else if b = 0x0D then [backslash, 0x72]
  else if b < 0x20 then
    [backslash, 0x75, 0x30, 0x30, hexDigit (b.toNat / 16), hexDigit (b.toNat % 16)]
  else [b]

def writeText (s : String) : Bytes := quote :: (Bytes.ofString s).flatMap escape ++ [quote]

def writeInt (n : Int) : Bytes := Bytes.ofString (toString n)

/-- Writes members whose values are written already. -/
def writeMembers : List (String × Bytes) → Bytes
  | [] => []
  | [(key, value)] => writeText key ++ 0x3A :: value
  | (key, value) :: rest => writeText key ++ 0x3A :: value ++ 0x2C :: writeMembers rest

def writeObject (members : List (String × Bytes)) : Bytes := 0x7B :: writeMembers members ++ [0x7D]

end EventSourcing.Json
