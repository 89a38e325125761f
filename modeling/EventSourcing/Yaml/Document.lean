import EventSourcing.Yaml.Node

/-!
# YAML documents

A text holds at most one document, whose root is a mapping. Directives may stand in front of it, and
marks between them and at its end.
-/

namespace EventSourcing.Yaml

open EventSourcing.Settings (Value)

def Token.directive? : Token → Option Directive
  | .directive d => some d
  | _ => none

/-- What directives declare: a directive puts an end to what the one in front of it has declared. A
version must not be there twice. -/
def handlesOf? (directives : List Directive) : Option (Table String String) :=
  if 1 < directives.count .version then none
  else
    match directives.getLast? with
    | some (.handle name front) => some [(name, front)]
    | _ => some []

/-- Splits off what stands in front of a document; behind directives it has to have a mark. -/
def Source.ofTokens? (tokens : List Token) : Option Source := do
  let body := tokens.dropWhile (·.directive?.isSome)
  let handles ← handlesOf? ((tokens.takeWhile (·.directive?.isSome)).filterMap Token.directive?)
  if body.head? = some .documentStart then return { tokens := body.drop 1, handles := handles }
  else if body.length = tokens.length then return { tokens := tokens, handles := [] }
  else none

/-- The node of a document with nothing but marks behind it. -/
def Node.ofTokens? (tokens : List Token) : Option Node := do
  let (n, rest) ← (Builder.node (3 * tokens.length + 3) true false).run (← Source.ofTokens? tokens)
  if rest.tokens.all (· = .documentEnd) then some n else none

/-- The entries of the root of a text, if it can be read. A text without a document has none. -/
def parse? (s : String) : Option (Table String Value) := do
  let tokens := (← tokens? s).dropWhile (· = .documentEnd)
  if tokens = [] then return []
  else
    match (← Node.ofTokens? tokens).value? with
    | some (.table entries) => return entries
    | _ => none

end EventSourcing.Yaml
