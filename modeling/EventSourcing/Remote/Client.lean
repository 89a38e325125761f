import EventSourcing.Remote.Convert
import EventSourcing.Store.Basic

/-!
# A log on a server

The calls of a log, put to a server. A stream that the server does not find has no records and no
version, and deleting it needs nothing to be done.
-/

namespace EventSourcing.Remote

/-- A log that is kept by a server. -/
structure Client (σ : Type) where
  responder : σ

namespace Client

variable {σ : Type} [Responder σ]

/-- Asks the server. -/
def request (c : Client σ) (call : Call) : Except ServerError Reply × Client σ :=
  let (r, responder) := Responder.request c.responder call
  (r, ⟨responder⟩)

def append (c : Client σ) (stream : String) (expected : Expectation)
    (events : List EncodedEvent) : Except LogError Nat × Client σ :=
  match c.request (.append stream expected (events.map .ofEncoded)) with
  | (.ok reply, c) => (.ok (reply.reached + 1), c)
  | (.error e, c) => (.error (appendError stream expected e), c)

/-- The records of what a read has given, up to its end. -/
def records (stream : String) : List Item → Except LogError (List StoredRecord)
  | [] | .error .resourceNotFound :: _ => .ok []
  | .error e :: _ => .error (callError stream e)
  | .ok r :: items => (records stream items).map (r.content.record :: ·)

def read (c : Client σ) (stream : String) (start : Nat) :
    Except LogError (List StoredRecord) × Client σ :=
  match c.request (.read stream (.revision start) false (holdsLinks stream) none) with
  | (.ok reply, c) => (records stream reply.items, c)
  | (.error .resourceNotFound, c) => (.ok [], c)
  | (.error e, c) => (.error (callError stream e), c)

/-- The version after the first item of a read from the end backwards. -/
def versionOf (stream : String) : List Item → Except LogError (Option Nat)
  | [] | .error .resourceNotFound :: _ => .ok none
  | .error e :: _ => .error (callError stream e)
  | .ok r :: _ => .ok (some (r.entry.revision + 1))

def version? (c : Client σ) (stream : String) : Except LogError (Option Nat) × Client σ :=
  match c.request (.read stream .atEnd true false (some 1)) with
  | (.ok reply, c) => (versionOf stream reply.items, c)
  | (.error .resourceNotFound, c) => (.ok none, c)
  | (.error e, c) => (.error (callError stream e), c)

def tombstone (c : Client σ) (stream : String) : Except LogError Unit × Client σ :=
  match c.request (.tombstone stream) with
  | (.ok _, c) | (.error .resourceNotFound, c) => (.ok (), c)
  | (.error e, c) => (.error (callError stream e), c)

/-- Creates a group; one that is there stays as it is. -/
def createGroup (c : Client σ) (stream group : String) (settings : GroupSettings) :
    Except LogError Unit × Client σ :=
  match c.request (.createGroup stream group (.ofSettings stream settings)) with
  | (.ok _, c) | (.error .resourceAlreadyExists, c) => (.ok (), c)
  | (.error e, c) => (.error (callError stream e), c)

/-- Begins to follow a stream. This never fails: what is wrong shows when a record is asked for. -/
def subscribe (c : Client σ) (stream : String) (start : Option Nat) : Client σ :=
  (c.request (.subscribe stream (Position.before start) (holdsLinks stream))).2

/-- Joins a group. -/
def connect (c : Client σ) (stream group : String) (bufferSize : Nat) :
    Except LogError Unit × Client σ :=
  match c.request (.connect stream group bufferSize) with
  | (.ok _, c) => (.ok (), c)
  | (.error .resourceNotFound, c) => (.error (.subscriptionNotFound stream group), c)
  | (.error e, c) => (.error (callError stream e), c)

/-- Puts a reader's command to the server. -/
def settle (c : Client σ) (command : Command) : Except LogError Unit × Client σ :=
  match c.request (.settle command) with
  | (.ok _, c) => (.ok (), c)
  | (.error e, c) => (.error (memberError e), c)

end Client

instance {σ : Type} [Responder σ] : LogClient (Client σ) where
  append := Client.append
  read := Client.read
  version? := Client.version?
  tombstone := Client.tombstone

end EventSourcing.Remote
