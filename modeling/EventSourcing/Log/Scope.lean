import EventSourcing.Text.Prefix

/-!
# What a reader of the log addresses

A reader names the whole log, a category or a single stream. The category of a stream is the part of
its name before the first dash; names that start with `$` have none, except that the mark of a
hard-deleted stream counts toward the category of that stream.
-/

namespace EventSourcing

/-- The name of the stream of all records. -/
def wholeLog : String := "$all"

/-- The start of the name of the stream of a category. -/
def categoryMark : String := "$ce-"

/-- The stream of all records of a category. -/
def streamOfCategory (category : String) : String := categoryMark ++ category

/-- A part of the log: all of it, a category, or a stream. -/
inductive Scope
  | all
  | category (name : String)
  | stream (name : String)
  deriving DecidableEq, Repr

/-- What a reader addresses by a name. -/
def Scope.ofName (name : String) : Scope :=
  if name = wholeLog then .all
  else
    match Text.strip? categoryMark name with
    | some rest => .category rest
    | none => .stream name

/-- The part before the first dash, if there is a dash. -/
def beforeDash? (cs : List Char) : Option (List Char) :=
  if '-' ∈ cs then some (cs.takeWhile (· ≠ '-')) else none

/-- The category of a stream. -/
def streamCategory? (stream : String) : Option String :=
  let name := (Text.strip? "$$" stream).getD stream
  if Text.hasPrefix "$" name then none
  else (beforeDash? name.toList).map String.ofList

end EventSourcing
