import SchemaWeave.Json.Value

/-!
# The shape of a configuration

Which JSON values are configurations, in the vocabulary of JSON Schema, so that an editor can
check a configuration while it is written.
-/

namespace SchemaWeave.Configuration

/-! ## Parts of a shape -/

/-- A value with a type, and a description if it has one. -/
def typed (type : Json) (description : Option String) : Json :=
  .record ((description.toList.map fun d => ("description", Json.text d)) ++ [("type", type)])

def requiredShape (description : Option String) : Json := typed (.text "string") description

def optionalShape (description : Option String) : Json :=
  typed (.array [.text "string", .text "null"]) description

/-- An object with the given properties and no others. -/
def recordShape (properties : List (String × Json)) (required : List String) :
    List (String × Json) :=
  [("type", .text "object"), ("additionalProperties", .boolean false)]
    ++ (if properties.isEmpty then [] else [("properties", .record properties)])
    ++ if required.isEmpty then [] else [("required", .array (required.map .text))]

/-- A list, empty unless it is given. -/
def listShape (definition description : String) : Json :=
  .record [("description", .text description), ("type", .text "array"), ("default", .array []),
    ("items", .record [("$ref", .text ("#/definitions/" ++ definition))])]

/-! ## Entries -/

def schemaShape : Json :=
  .record (("description",
      .text "A schema and where to load it from. Exactly one of `sdl` and `file` must be set.")
    :: recordShape
      [("name", requiredShape (some "The name the schema is registered under.")),
        ("sdl", optionalShape (some "Inline SDL.")),
        ("file", optionalShape (some "Path to a file containing SDL."))]
      ["name"])

def extensionShape : Json :=
  .record (("description",
      .text "An extension document. Exactly one of `sdl` and `file` must be set.")
    :: recordShape
      [("schema", optionalShape (some "The schema to extend. Global when absent.")),
        ("sdl", optionalShape none), ("file", optionalShape none)]
      [])

/-- A rule under its word, with its texts in alphabetical order. -/
def ruleShape (word : String) (texts : List String) : Json :=
  let properties := ("schema", optionalShape none) :: texts.map fun t => (t, requiredShape none)
  .record (recordShape [(word, .record (recordShape properties texts))] [word])

def rewriteShape : Json :=
  .record [("description",
      .text "A rewrite rule. Rules without a schema apply to every schema."),
    ("oneOf", .array [ruleShape "remove_type" ["type"], ruleShape "remove_field" ["field", "type"],
      ruleShape "remove_root_types" [], ruleShape "rename_type" ["from", "to"],
      ruleShape "rename_field" ["field", "to", "type"]])]

/-! ## Configurations -/

def shape : Json :=
  .record ([("$schema", .text "http://json-schema.org/draft-07/schema#"),
      ("title", .text "Configuration"),
      ("description", .text "The root of a composition configuration.")]
    ++ recordShape
      [("schemas", listShape "SchemaConfig" "The schemas to compose, in order."),
        ("extensions", listShape "ExtensionConfig"
          "Extension documents. Extensions without a schema are applied to the unified schema."),
        ("rewrites", listShape "RewriteConfig" "Rewrite rules, applied in order.")]
      []
    ++ [("definitions", .record [("SchemaConfig", schemaShape),
      ("ExtensionConfig", extensionShape), ("RewriteConfig", rewriteShape)])])

end SchemaWeave.Configuration
