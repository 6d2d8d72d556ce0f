import SchemaWeave.SchemaNames
import SchemaWeave.Schema.Basic

/-!
# Conflicts

Definitions of one name that cannot be combined. A merge handler that finds several conflicts
reports them as one value; `ofList` builds that value and `flatten` takes it apart.
-/

namespace SchemaWeave

/-- How a handler's result differs from what it was asked for. -/
inductive Breach where
  | name (found : Name)
  | kind (found expected : TypeKind)
deriving DecidableEq

inductive Conflict where
  /-- A type has several kinds; each schema is listed with its own. -/
  | kindsDiffer (type : Name) (kinds : List (String × TypeKind))
  /-- A field has several signatures; each schema is listed with its own. -/
  | fieldDiffers (type field : Name) (signatures : Table String String)
  | notIdentical (kind : TypeKind) (type : Name) (schemas : SchemaNames)
  | directiveDiffers (directive : Name) (schemas : SchemaNames)
  /-- A handler refuses to combine the definitions. -/
  | rejected (type : Name) (schemas : SchemaNames) (reason : String)
  | breach (type : Name) (breach : Breach)
  /-- Several conflicts reported together. -/
  | several (conflicts : List Conflict)

namespace Conflict

instance : Inhabited Conflict := ⟨several []⟩

/-! ## Aggregation -/

/-- The conflicts that are reported together by one value. -/
def flatten : Conflict → List Conflict
  | several conflicts => conflicts
  | c => [c]

/-- One value for several conflicts. A single conflict stands for itself. -/
def ofList (conflicts : List Conflict) : Conflict :=
  match conflicts.flatMap flatten with
  | [single] => single
  | flat => several flat

/-! ## Wording -/

/-- The schemas and their kinds, such as `enum in "a"`. -/
def kindsText (kinds : List (String × TypeKind)) : String :=
  ", ".intercalate (kinds.map fun e => e.2.text ++ " in \"" ++ e.1 ++ "\"")

/-- The schemas and their signatures of one field. -/
def signaturesText (signatures : Table String String) : String :=
  ", ".intercalate (signatures.entries.map fun e => "`" ++ e.2 ++ "` in \"" ++ e.1 ++ "\"")

/-- What a handler returned in place of a definition of the type. -/
def breachText (type : Name) : Breach → String
  | .name found => "a definition named `" ++ found.text ++ "`"
  | .kind found expected =>
    found.text ++ " `" ++ type.text ++ "` where " ++ expected.text ++ " was expected"

mutual

def message : Conflict → String
  | kindsDiffer t kinds =>
    "type `" ++ t.text ++ "` has different kinds in "
      ++ SchemaNames.text (.ofList (kinds.map Prod.fst)) ++ ": " ++ kindsText kinds
  | fieldDiffers t f signatures =>
    "field `" ++ t.text ++ "." ++ f.text ++ "` has incompatible definitions in "
      ++ SchemaNames.text (.ofList signatures.keys) ++ ": " ++ signaturesText signatures
  | notIdentical kind t schemas =>
    kind.text ++ " `" ++ t.text ++ "` is not identical in " ++ schemas.text
  | directiveDiffers d schemas =>
    "directive `@" ++ d.text ++ "` is defined differently in " ++ schemas.text
  | rejected t schemas reason =>
    "type `" ++ t.text ++ "` from " ++ schemas.text ++ " was rejected by its merge handler: "
      ++ reason
  | breach t b => "the merge handler for `" ++ t.text ++ "` returned " ++ breachText t b
  | several conflicts => "; ".intercalate (messages conflicts)

/-- The message of each conflict in a list. -/
def messages : List Conflict → List String
  | [] => []
  | c :: cs => c.message :: messages cs

end

end Conflict

end SchemaWeave
