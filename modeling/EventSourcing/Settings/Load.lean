import EventSourcing.Settings.Basic
import EventSourcing.Settings.Environment
import EventSourcing.Yaml.Document

/-!
# Loading settings

Settings come in layers, each on top of the one before: a default file that may be missing, the file
that the caller names, the file that the environment names, and the variables of the environment.
The layers are merged first; only the outcome is read and checked.
-/

namespace EventSourcing.Settings

/-- A file: its text, or none if it is missing. -/
abbrev File := Option String

structure Sources where
  defaultFile : File := none
  /-- The file that the caller names. -/
  file : Option File := none
  /-- The file that the environment names. -/
  environmentFile : Option File := none
  environment : List (String × String) := []
  deriving DecidableEq, Repr

inductive LoadError
  /-- A file is missing or malformed, or a setting cannot be converted. -/
  | unreadable
  | invalid (flaw : Flaw)
  deriving DecidableEq, Repr

/-- The layer of a file that need not be there. -/
def optionalLayer? : File → Option (Table String Value)
  | none => some []
  | some text => Yaml.parse? text

/-- The layer of a file that has to be there if it is named. -/
def namedLayer? : Option File → Option (Table String Value)
  | none => some []
  | some file => file.bind Yaml.parse?

/-- All layers, the lowest first. -/
def Sources.layers? (s : Sources) : Option (List (Table String Value)) := do
  return [← optionalLayer? s.defaultFile, ← namedLayer? s.file, ← namedLayer? s.environmentFile,
    ofEnvironment s.environment]

/-- Merges layers. -/
def merge (layers : List (Table String Value)) : Value := layers.foldl Value.putLayer (.table [])

/-- The settings that the sources add up to. -/
def load (s : Sources) : Except LoadError Settings :=
  match s.layers?.bind fun layers => read (merge layers) with
  | none => .error .unreadable
  | some settings =>
    match settings.flaw? with
    | some flaw => .error (.invalid flaw)
    | none => .ok settings

end EventSourcing.Settings
