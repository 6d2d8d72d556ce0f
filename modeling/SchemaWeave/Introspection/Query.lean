/-!
# The introspection query

What a remote schema is asked, as a tree of selections and as the text that is sent.

## References

A type reference is followed through `referenceDepth` layers of lists and non-nulls. A
reference with more layers comes back cut off.
-/

namespace SchemaWeave.Introspection

/-- A line of a selection, with the selections below it in braces. -/
inductive Selection where
  | line (text : String)
  | block (head : String) (inner : List Selection)

namespace Selection

mutual

/-- The lines of a selection, each after `level` steps of two blanks. -/
def text (level : Nat) : Selection → String
  | line s => indented level s
  | block head inner =>
    indented level (head ++ " \x7b") ++ texts (level + 1) inner ++ indented level "\x7d"

/-- The lines of several selections. -/
def texts (level : Nat) : List Selection → String
  | [] => ""
  | s :: more => s.text level ++ texts level more

/-- One line. -/
def indented (level : Nat) (s : String) : String :=
  String.ofList (List.replicate (2 * level) ' ') ++ s ++ "\n"

end

end Selection

open Selection

/-- The layers through which a type reference is followed. -/
def referenceDepth : Nat := 7

def referenceSelections : Nat → List Selection
  | 0 => [line "kind", line "name"]
  | n + 1 => [line "kind", line "name", block "ofType" (referenceSelections n)]

def operationName : String := "IntrospectionQuery"

def schemaSelection : Selection :=
  block ("query " ++ operationName) [
    block "__schema" [
      line "queryType \x7b name \x7d",
      line "mutationType \x7b name \x7d",
      line "subscriptionType \x7b name \x7d",
      line "types \x7b ...FullType \x7d",
      block "directives" [
        line "name",
        line "description",
        line "locations",
        line "args \x7b ...InputValue \x7d",
        line "isRepeatable"]]]

def typeSelection : Selection :=
  block "fragment FullType on __Type" [
    line "kind",
    line "name",
    line "description",
    line "specifiedByURL",
    block "fields(includeDeprecated: true)" [
      line "name",
      line "description",
      line "args \x7b ...InputValue \x7d",
      line "type \x7b ...TypeRef \x7d",
      line "isDeprecated",
      line "deprecationReason"],
    line "inputFields \x7b ...InputValue \x7d",
    line "interfaces \x7b ...TypeRef \x7d",
    block "enumValues(includeDeprecated: true)" [
      line "name",
      line "description",
      line "isDeprecated",
      line "deprecationReason"],
    line "possibleTypes \x7b ...TypeRef \x7d"]

def inputValueSelection : Selection :=
  block "fragment InputValue on __InputValue" [
    line "name",
    line "description",
    line "type \x7b ...TypeRef \x7d",
    line "defaultValue"]

def referenceSelection : Selection :=
  block "fragment TypeRef on __Type" (referenceSelections referenceDepth)

/-- The text of the query. -/
def query : String :=
  "\n".intercalate ([schemaSelection, typeSelection, inputValueSelection, referenceSelection].map
    (Selection.text 0))

/-- What is sent to a remote schema. -/
structure Request where
  operationName : String
  query : String
deriving DecidableEq

/-- The introspection request. -/
def request : Request := ⟨operationName, query⟩

end SchemaWeave.Introspection
