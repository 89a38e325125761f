import EventSourcing.Aggregate

/-!
# Notes

Notes are written down in order. One event of this domain has no encoding, so that saving it fails.
-/

namespace EventSourcing.Domain

inductive NoteEvent
  | note (text : String)
  | poison
  deriving DecidableEq, Repr

namespace NoteEvent

def typeName : NoteEvent → String
  | .note _ => "Note"
  | .poison => "Poison"

def encode : NoteEvent → Except EncodeError Bytes
  | .note text => .ok (Json.writeObject [("text", Json.writeText text)])
  | .poison => .error ⟨"Poison", "key must be a string"⟩

def readNote (t : Json.Tree) : Option NoteEvent := do
  match ← t.fields? ["text"] with
  | [some text] => return .note (← text.text?)
  | _ => none

def decode (eventType : String) (data : Bytes) : Decoded NoteEvent :=
  if eventType = "Note" then Decoded.ofJson eventType data readNote
  else if eventType = "Poison" then .skip
  else .error (.unknownType eventType)

end NoteEvent

instance : DomainEvent NoteEvent where
  eventType := NoteEvent.typeName
  encode := NoteEvent.encode
  decode := NoteEvent.decode

structure Notebook where
  notes : List String
  deriving DecidableEq, Repr

namespace Notebook

def apply (n : Notebook) : NoteEvent → Notebook
  | .note text => ⟨n.notes ++ [text]⟩
  | .poison => n

end Notebook

instance : Aggregate Notebook NoteEvent where
  kind := "fragile"
  zero := ⟨[]⟩
  apply := Notebook.apply

end EventSourcing.Domain
