import SchemaWeave.Sdl.Tree
import SchemaWeave.Sdl.BlockText

/-!
# Writing documents

Definitions are separated by an empty line, and every entry of a definition stands on a line of
its own, indented by two blanks for each level.

## Layout

A value is laid out on one line (in the arguments of applied directives and in arguments that
share a line) or over several lines, where every item of a list and every field of an object
gets its own line and strings may take their block form.
-/

namespace SchemaWeave.Sdl

inductive Layout where
  | oneLine
  | lines (level : Nat)
deriving DecidableEq

/-- The blanks in front of a line. -/
def indent (level : Nat) : String := String.ofList (List.replicate (2 * level) ' ')

/-- The start of a new line. -/
def newLine (level : Nat) : String := "\n" ++ indent level

/-! ## Strings -/

def hexChar (n : Nat) : Char :=
  if n < 10 then Char.ofNat ('0'.toNat + n) else Char.ofNat ('A'.toNat + n - 10)

/-- A character as it stands between quotes. -/
def escapeChar (c : Char) : String :=
  if c == '"' then "\\\""
  else if c == '\\' then "\\\\"
  else if c == '\x08' then "\\b"
  else if c == '\n' then "\\n"
  else if c == '\x0c' then "\\f"
  else if c == '\r' then "\\r"
  else if c == '\t' then "\t"
  else if c.toNat < 0x20 then
    "\\u00" ++ String.ofList [hexChar (c.toNat / 16), hexChar (c.toNat % 16)]
  else String.singleton c

/-- A text between quotes on one line. -/
def quoted (s : String) : String := "\"" ++ String.join (s.toList.map escapeChar) ++ "\""

/-- A description: in block form wherever that reads back. -/
def describe (level : Nat) (s : String) : String :=
  if BlockText.isWritable s.toList then BlockText.write (indent level) s.toList else quoted s

/-- A string value: in block form only when it has several lines and the layout allows it. -/
def stringText (layout : Layout) (s : String) : String :=
  match layout with
  | .oneLine => quoted s
  | .lines level => if s.toList.contains '\n' then describe level s else quoted s

/-! ## Values -/

/-- Items between brackets: after one another, or each on its own line with a comma. -/
def bracketed (layout : Layout) (opening closing : String) (items : List String) : String :=
  if items.isEmpty then opening ++ closing
  else
    match layout with
    | .oneLine => opening ++ ", ".intercalate items ++ closing
    | .lines level =>
      opening ++ String.join (items.map fun s => newLine (level + 1) ++ s ++ ",")
        ++ newLine level ++ closing

namespace Layout

/-- The layout of what stands one level deeper. -/
def deeper : Layout → Layout
  | oneLine => oneLine
  | lines level => lines (level + 1)

end Layout

mutual

def valueText (layout : Layout) : Value → String
  | .null => "null"
  | .boolean b => if b then "true" else "false"
  | .int digits => digits
  | .float digits => digits
  | .string s => stringText layout s
  | .enum n => n.text
  | .var n => "$" ++ n.text
  | .list items => bracketed layout "[" "]" (itemTexts layout.deeper items)
  | .object fields => bracketed layout "\x7b" "\x7d" (fieldTexts layout.deeper fields)

/-- The texts of the items of a list. -/
def itemTexts (layout : Layout) : List Value → List String
  | [] => []
  | v :: vs => valueText layout v :: itemTexts layout vs

/-- The texts of the fields of an object. -/
def fieldTexts (layout : Layout) : List (Name × Value) → List String
  | [] => []
  | (n, v) :: fields => (n.text ++ ": " ++ valueText layout v) :: fieldTexts layout fields

end

/-! ## Directives -/

/-- An applied directive, always on one line. -/
def directiveText (d : Directive) : String :=
  if d.arguments.isEmpty then "@" ++ d.name.text
  else "@" ++ d.name.text ++ "(" ++ ", ".intercalate (fieldTexts .oneLine d.arguments) ++ ")"

/-- Applied directives, each after a blank. -/
def directivesText (ds : List Directive) : String :=
  String.join (ds.map fun d => " " ++ directiveText d)

/-! ## Fields and arguments -/

/-- The line or lines in front of a described element. -/
def descriptionText (level : Nat) : Option String → String
  | none => ""
  | some s => describe level s ++ newLine level

/-- An input value without its description. -/
def inputValueText (layout : Layout) (v : InputValue) : String :=
  let default := match v.default with
    | none => ""
    | some value => " = " ++ valueText layout value
  v.signature ++ default ++ directivesText v.directives

/-- An input value with its description, for a line of its own. -/
def inputValueLines (level : Nat) (v : InputValue) : String :=
  descriptionText level v.description ++ inputValueText (.lines level) v

/-- Argument definitions in parentheses. They share the line when none is described and none
has directives. -/
def argumentsText (level : Nat) (args : List InputValue) : String :=
  if args.isEmpty then ""
  else if args.all (fun a => a.description.isNone && a.directives.isEmpty) then
    bracketed .oneLine "(" ")" (args.map (inputValueText .oneLine))
  else bracketed (.lines level) "(" ")" (args.map (inputValueLines (level + 1)))

def fieldText (level : Nat) (f : FieldNode) : String :=
  descriptionText level f.description ++ f.name.text ++ argumentsText level f.arguments
    ++ ": " ++ f.type.text ++ directivesText f.directives

def enumValueText (level : Nat) (v : EnumValue) : String :=
  descriptionText level v.description ++ v.name.text ++ directivesText v.directives

/-! ## Definitions -/

/-- Entries in braces, one per line; nothing at all when there are none. -/
def braced (entries : List String) : String :=
  if entries.isEmpty then ""
  else " \x7b" ++ String.join (entries.map fun s => newLine 1 ++ s) ++ "\n\x7d"

def implementsText (interfaces : List Name) : String :=
  if interfaces.isEmpty then ""
  else " implements " ++ " & ".intercalate (interfaces.map Name.text)

/-- A type from its keyword on. -/
def typeText (n : Name) (ds : List Directive) (body : Body) : String :=
  let head := keywordOf body.kind ++ " " ++ n.text
  match body with
  | .scalar => head ++ directivesText ds
  | .object interfaces fields | .interface interfaces fields =>
    head ++ implementsText interfaces ++ directivesText ds ++ braced (fields.map (fieldText 1))
  | .union members =>
    let list := if members.isEmpty then "" else " = " ++ " | ".intercalate (members.map Name.text)
    head ++ directivesText ds ++ list
  | .enum values => head ++ directivesText ds ++ braced (values.map (enumValueText 1))
  | .inputObject fields =>
    head ++ directivesText ds ++ braced (fields.map (inputValueLines 1))

def rootText (r : RootOperation × Name) : String := r.1.text ++ ": " ++ r.2.text

/-- A schema definition from its keyword on. The braces are written even when empty. -/
def schemaText (ds : List Directive) (roots : List (RootOperation × Name)) : String :=
  let body := if roots.isEmpty then " \x7b\x7d" else braced (roots.map rootText)
  "schema" ++ directivesText ds ++ body

def directiveNodeText (d : DirectiveNode) : String :=
  let repeatable := if d.repeatable then " repeatable" else ""
  let locations :=
    if d.locations.isEmpty then ""
    else " on " ++ " | ".intercalate (d.locations.map DirectiveLocation.text)
  "directive @" ++ d.name.text ++ argumentsText 0 d.arguments ++ repeatable ++ locations

/-- A definition. Executable definitions have no text, since nothing of them is kept. -/
def definitionText : Definition → String
  | .executable => ""
  | .schema s => descriptionText 0 s.description ++ schemaText s.directives s.roots
  | .directive d => descriptionText 0 d.description ++ directiveNodeText d
  | .type t => descriptionText 0 t.description ++ typeText t.name t.directives t.body
  | .extendSchema e =>
    "extend schema" ++ directivesText e.directives ++ braced (e.roots.map rootText)
  | .extendType e => "extend " ++ typeText e.name e.directives e.body

/-- The text of a document. It ends with a line end, unless there is nothing to write. -/
def Document.text (d : Document) : String :=
  if d.definitions.isEmpty then ""
  else "\n\n".intercalate (d.definitions.map definitionText) ++ "\n"

end SchemaWeave.Sdl
