import SchemaWeave.Distinct

/-!
# Lists of schema names

The schemas that are involved in something, each once, and the way to name them in a sentence.
-/

namespace SchemaWeave

/-- Names of schemas, each once, in the order of first mention. -/
abbrev SchemaNames := Distinct String

namespace SchemaNames

/-- Items joined as in a sentence: commas, and a word before the last. -/
def enumerate : List String → String
  | [] => ""
  | [x] => x
  | [x, y] => x ++ " and " ++ y
  | x :: y :: z :: rest => x ++ ", " ++ enumerate (y :: z :: rest)

/-- The names in quotes, after the noun in the right number. -/
def text (s : SchemaNames) : String :=
  match s.toList.map (fun n => "\"" ++ n ++ "\"") with
  | [] => "no schema"
  | [single] => "schema " ++ single
  | several => "schemas " ++ enumerate several

end SchemaNames

end SchemaWeave
