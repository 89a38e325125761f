import EventSourcing.Log.Error
import EventSourcing.Number.Integer
import EventSourcing.Settings.Value
import EventSourcing.Text.Bytes
import EventSourcing.Text.Prefix

/-!
# Addresses of log servers

An address is a URL with the scheme of log servers, one host or more, and options in its query. Only
whether connections are encrypted counts here, but every option that is known has to be readable.
-/

namespace EventSourcing.Remote

/-- What is left of a text behind the first of the stops, and what is in front of it. -/
def splitAtAny (stops : List Char) (cs : List Char) : List Char × List Char :=
  (cs.takeWhile (· ∉ stops), cs.dropWhile (· ∉ stops))

structure Address where
  /-- The hosts, one behind the other. -/
  hosts : String
  /-- Whether connections are encrypted. -/
  secure : Bool
  deriving DecidableEq, Repr

namespace Address

/-- The schemes: one for a server, one for a cluster whose members are discovered. -/
def schemes : List String := ["esdb", "esdb+discover"]

/-! ## Hosts -/

/-- A number of eight bits without needless zeros. -/
def isOctet (cs : List Char) : Bool :=
  (Number.digits? cs).any (· < 0x100) && (cs.length = 1 || cs.head? ≠ some '0')

/-- A number of 16 bits in base sixteen. -/
def isGroup (cs : List Char) : Bool := cs.length ≤ 4 && (Number.digitsOf? 16 cs).isSome

/-- How many groups of 16 bits stand between colons; four numbers with points between them, which
may only come last, make two. -/
def groupCount? : List (List Char) → Option Nat
  | [] => some 0
  | [last] =>
    let numbers := last.splitOn '.'
    if numbers.length = 4 ∧ numbers.all isOctet then some 2
    else if isGroup last then some 1
    else none
  | group :: rest => if isGroup group then (groupCount? rest).map (· + 1) else none

/-- The colons of a text cut it into groups; an empty text has none. -/
def groups (cs : List Char) : List (List Char) := if cs = [] then [] else cs.splitOn ':'

/-- Cuts a text at its first two colons in a row. -/
def cutAtGap? : List Char → Option (List Char × List Char)
  | ':' :: ':' :: rest => some ([], rest)
  | c :: cs => (cutAtGap? cs).map fun (front, rest) => (c :: front, rest)
  | [] => none

/-- Whether a text is an address of 128 bits: eight groups, or fewer with one gap that stands for
the others. -/
def isAddress128 (cs : List Char) : Bool :=
  match cutAtGap? cs with
  | none => groupCount? (groups cs) = some 8
  | some (front, rest) =>
    !front.contains '.' &&
      match groupCount? (groups front), groupCount? (groups rest) with
      | some m, some n => m + n ≤ 7
      | _, _ => false

def isHostChar (c : Char) : Bool :=
  c ∉ ['\x00', '\t', '\n', '\r', ' ', '#', '/', ':', '<', '>', '?', '@', '[', '\\', ']', '^', '|']

/-- Whether a colon and a number of 16 bits stand here, or nothing. -/
def isNumberTail : List Char → Bool
  | [] => true
  | c :: digits =>
    c = ':' && (digits = [] || (Number.digits? digits).any (· < 0x10000))

/-- Whether a host stands here, a name or an address in brackets, and possibly its number. -/
def isEndpoint : List Char → Bool
  | '[' :: cs =>
    let (address, rest) := splitAtAny [']'] cs
    isAddress128 address && rest ≠ [] && isNumberTail (rest.drop 1)
  | cs =>
    let (name, tail) := splitAtAny [':'] cs
    name ≠ [] && name.all isHostChar && isNumberTail tail

/-! ## Options -/

/-- A text of a query with its escapes undone: a plus sign is a space, and a percent sign with two
digits is a byte. -/
def unescape : Bytes → Bytes
  | 0x25 :: a :: b :: rest =>
    match Number.digitsOf? 16 [Char.ofUInt8 a, Char.ofUInt8 b] with
    | some n => n.toUInt8 :: unescape rest
    | none => 0x25 :: unescape (a :: b :: rest)
  | 0x2B :: rest => 0x20 :: unescape rest
  | c :: rest => c :: unescape rest
  | [] => []

def unescapeText (cs : List Char) : String :=
  (Bytes.text? (unescape (Bytes.ofString (String.ofList cs)))).getD ""

/-- The options of a query, with their names in small letters. -/
def options (query : List Char) : List (String × String) :=
  ((query.splitOn '&').filter (· ≠ [])).map fun option =>
    let (name, value) := splitAtAny ['='] option
    (Settings.foldKey (unescapeText name), unescapeText (value.drop 1))

/-- The options whose values are whole numbers. -/
def counts : List String :=
  ["maxdiscoverattempts", "discoveryinterval", "gossiptimeout", "defaultdeadline"]

/-- Which members of a cluster may be preferred. -/
def preferences : List String := ["follower", "random", "leader", "readonlyreplica"]

def isCount (value : String) : Bool := (Number.natural? value.toList).any (· ≤ Number.maxWord64)

/-- A pause between signs of life, or -1 for none. -/
def isPause (value : String) : Bool :=
  (Number.integer? value.toList).any fun n => -1 ≤ n ∧ Number.FitsInt64 n

/-- Whether the value of an option can be read; unknown options may have any. -/
def isReadable (name value : String) : Bool :=
  if name ∈ ["tls", "tlsverifycert"] then value ∈ ["true", "false"]
  else if name ∈ counts then isCount value
  else if name ∈ ["keepaliveinterval", "keepalivetimeout"] then isPause value
  else if name = "nodepreference" then Settings.foldKey value ∈ preferences
  else true

/-- Whether the options ask for encryption, which they do unless the last word on it is no. -/
def secure? (query : List Char) : Option Bool :=
  let options := options query
  if options.all fun (name, value) => isReadable name value then
    some ((options.reverse.find? (·.1 = "tls")).all (·.2 = "true"))
  else none

/-! ## Addresses -/

/-- What stands behind the name and password of a user. -/
def withoutUser (authority : List Char) : List Char :=
  (authority.reverse.takeWhile (· ≠ '@')).reverse

/-- Reads what stands behind the scheme. -/
def ofRest? (rest : List Char) : Option Address :=
  let rest := rest.takeWhile (· ≠ '#')
  let (authority, rest) := splitAtAny ['/', '?'] rest
  let (path, query) := splitAtAny ['?'] rest
  let hosts := withoutUser authority
  if (hosts.splitOn ',').all isEndpoint ∧ (path = [] ∨ path = ['/']) then
    (secure? (query.drop 1)).map fun secure => ⟨String.ofList hosts, secure⟩
  else none

/-- A text without control characters and spaces around it, and without line ends and tabs. -/
def clean (cs : List Char) : List Char :=
  let outer (c : Char) : Bool := c.toNat ≤ 0x20
  ((cs.dropWhile outer).reverse.dropWhile outer).reverse.filter (· ∉ ['\t', '\n', '\r'])

/-- Reads an address. -/
def parse? (s : String) : Option Address :=
  let (scheme, rest) := splitAtAny [':'] (clean s.toList)
  if String.ofList (scheme.map Char.toLower) ∈ schemes then
    (([':', '/', '/'] : List Char).isPrefixOf? rest).bind ofRest?
  else none

end Address

/-! ## Opening a log -/

/-- Why no client can be made for an address. -/
inductive AddressError
  | scheme
  | host
  | unusable
  deriving DecidableEq, Repr

/-- The host that cannot be reached. -/
def unusableHost : String := "unusable"

def AddressError.reason : AddressError → String
  | .scheme => "invalid connection string: not an esdb address"
  | .host => "invalid connection string: no host"
  | .unusable => "Initialization error: unusable host"

/-- The host of an address, of which nothing else is looked at. -/
def hostOf (address : String) : Except AddressError String :=
  match Text.strip? "esdb://" address with
  | none => .error .scheme
  | some rest =>
    let host := String.ofList (rest.toList.takeWhile (· ∉ [':', '/', '?']))
    if host = "" then .error .host else if host = unusableHost then .error .unusable else .ok host

/-- Makes a client for an address. -/
def openServer (address : String) : Except LogError Unit :=
  ((hostOf address).mapError fun e => .connection e.reason).map fun _ => ()

/-- Opens the log that is configured; `server` makes a client for a log server. -/
def openLog (storeType : String) (server : Except LogError Unit) : Except LogError Unit :=
  if storeType = "memory" then .ok ()
  else if storeType = "eventstoredb" then server
  else .error (.connection ("unsupported store type: " ++ storeType))

/-- What comes of a log server where there is no client for one. -/
def noServer : Except LogError Unit := .error (.connection "eventstoredb feature not enabled")

end EventSourcing.Remote
