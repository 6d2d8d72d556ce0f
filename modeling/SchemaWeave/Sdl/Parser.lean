import SchemaWeave.Sdl.Rule
import SchemaWeave.Sdl.Tree

/-!
# Reading documents

The grammar of the schema definition language, one rule per production, and `Document.ofText?`,
which reads a whole text or refuses it.

## Depth

List types, list values, object values and selections may be nested up to `nestingLimit`
levels. The rules for them recurse on the number of levels that are left. A list or an object
is a level only for the values in it, so one without values may stand one level deeper.

## Leniency

Some incomplete forms are read and their incomplete part is dropped: a `schema` without
braces, an entry point without a type, an argument or an object field without a value. An
extension of the schema may have empty braces after its directives. A text may stand for the
word `fragment` in front of a fragment that is itself named `fragment`.
-/

namespace SchemaWeave.Sdl

/-! ## Grammar -/

namespace Grammar

open Sdl.Rule

/-- The deepest nesting that is read. -/
def nestingLimit : Nat := 500

/-! ### Types and values -/

/-- A type reference with at most `depth` list layers. -/
def typeRef (depth : Nat) : Rule TypeRef := do
  if ← nextIs (isPunctuator .openBracket) then
    punctuator .openBracket
    match depth with
    | 0 => refuse
    | depth + 1 =>
      let item ← typeRef depth
      punctuator .closeBracket
      match ← optionalIf (isPunctuator .bang) (punctuator .bang) with
      | some _ => return .nonNullList item
      | none => return .list item
  else
    let n ← name
    match ← optionalIf (isPunctuator .bang) (punctuator .bang) with
    | some _ => return .nonNullNamed n
    | none => return .named n

/-- A name that is a value on its own. -/
def valueOfName (n : Name) : Value :=
  if n.text = "true" then .boolean true
  else if n.text = "false" then .boolean false
  else if n.text = "null" then .null
  else .enum n

/-- A value that is written with one token. -/
def scalarOfToken : Token → Option Value
  | .int digits => some (.int digits)
  | .float digits => some (.float digits)
  | .string text => some (.string text)
  | .name n => some (valueOfName n)
  | .punctuator _ => none

/-- A name, a colon and what the colon introduces; nothing when there is no colon. -/
def named {α : Type} (r : Rule α) : Rule (Option (Name × α)) := do
  let n ← name
  match ← optionalIf (isPunctuator .colon) (do punctuator .colon; r) with
  | some a => return some (n, a)
  | none => return none

/-- A value with at most `depth` levels of lists and objects around another value. Variables
are values only where `allowVariables` holds. -/
def value (allowVariables : Bool) (depth : Nat) : Rule Value := do
  if ← nextIs (isPunctuator .openBracket) then
    punctuator .openBracket
    match depth with
    | 0 =>
      punctuator .closeBracket
      return .list []
    | depth + 1 =>
      let items ← repeatWhile (fun t => !isPunctuator .closeBracket t) (value allowVariables depth)
      punctuator .closeBracket
      return .list items
  else if ← nextIs (isPunctuator .openBrace) then
    punctuator .openBrace
    match depth with
    | 0 =>
      let _ ← repeatWhile isName (named (refuse : Rule Value))
      punctuator .closeBrace
      return .object []
    | depth + 1 =>
      let fields ← repeatWhile isName (named (value allowVariables depth))
      punctuator .closeBrace
      return .object (fields.filterMap id)
  else if ← nextIs (isPunctuator .dollar) then
    if allowVariables then
      punctuator .dollar
      return .var (← name)
    else refuse
  else take scalarOfToken

/-! ### Directives and arguments -/

def arguments (allowVariables : Bool) (depth : Nat) : Rule (List (Name × Value)) := do
  let entries ← enclosed .openParen .closeParen isName (named (value allowVariables depth))
  return entries.filterMap id

def directive (allowVariables : Bool) (depth : Nat) : Rule Directive := do
  punctuator .at
  let n ← name
  let args ← optionalIf (isPunctuator .openParen) (arguments allowVariables depth)
  return ⟨n, args.getD []⟩

/-- The directives applied at this place, of which there may be none. -/
def directives (allowVariables : Bool) (depth : Nat) : Rule (List Directive) :=
  repeatWhile (isPunctuator .at) (directive allowVariables depth)

/-- The directives of a definition, whose arguments are constant. -/
def constDirectives : Rule (List Directive) := directives false nestingLimit

/-- The text in front of an element that describes it. -/
def description : Rule (Option String) :=
  optionalIf isString (take fun t => match t with
    | .string s => some s
    | _ => none)

/-- Whether a token can begin an element that may carry a description. -/
def startsElement (t : Token) : Bool := isName t || isString t

def inputValue : Rule InputValue := do
  let text ← description
  let n ← name
  punctuator .colon
  let type ← typeRef nestingLimit
  let default ← optionalIf (isPunctuator .equals) (do
    punctuator .equals
    value false nestingLimit)
  return ⟨n, text, type, default, ← constDirectives⟩

/-- The arguments of a field or of a directive definition. -/
def argumentDefinitions : Rule (List InputValue) := do
  let args ← optionalIf (isPunctuator .openParen)
    (enclosed .openParen .closeParen startsElement inputValue)
  return args.getD []

/-! ### Types -/

def field : Rule FieldNode := do
  let text ← description
  let n ← name
  let args ← argumentDefinitions
  punctuator .colon
  let type ← typeRef nestingLimit
  return ⟨n, text, args, type, ← constDirectives⟩

def fields : Rule (List FieldNode) := do
  let entries ← optionalIf (isPunctuator .openBrace)
    (enclosed .openBrace .closeBrace startsElement field)
  return entries.getD []

def inputFields : Rule (List InputValue) := do
  let entries ← optionalIf (isPunctuator .openBrace)
    (enclosed .openBrace .closeBrace startsElement inputValue)
  return entries.getD []

def enumValue : Rule EnumValue := do
  let text ← description
  let n ← name
  if n.text = "true" || n.text = "false" || n.text = "null" then refuse
  return ⟨n, text, ← constDirectives⟩

def enumValues : Rule (List EnumValue) := do
  let entries ← optionalIf (isPunctuator .openBrace)
    (enclosed .openBrace .closeBrace startsElement enumValue)
  return entries.getD []

def interfaces : Rule (List Name) := do
  let names ← optionalIf (isKeyword "implements") (do
    keyword "implements"
    separated .amp name)
  return names.getD []

def members : Rule (List Name) := do
  let names ← optionalIf (isPunctuator .equals) (do
    punctuator .equals
    separated .pipe name)
  return names.getD []

/-- A type after its description: keyword, name, directives and body. -/
def typeAfter (kind : TypeKind) : Rule (Name × List Directive × Body) := do
  keyword (keywordOf kind)
  let n ← name
  match kind with
  | .scalar => return (n, ← constDirectives, .scalar)
  | .object =>
    let implemented ← interfaces
    let applied ← constDirectives
    return (n, applied, .object implemented (← fields))
  | .interface =>
    let implemented ← interfaces
    let applied ← constDirectives
    return (n, applied, .interface implemented (← fields))
  | .union =>
    let applied ← constDirectives
    return (n, applied, .union (← members))
  | .enum =>
    let applied ← constDirectives
    return (n, applied, .enum (← enumValues))
  | .inputObject =>
    let applied ← constDirectives
    return (n, applied, .inputObject (← inputFields))

/-! ### Schema and directive definitions -/

def operation : Rule RootOperation :=
  take fun t => match t with
    | .name n => RootOperation.all.find? (fun op => op.text = n.text)
    | _ => none

/-- One entry point; nothing when its type is left out. -/
def rootOperation : Rule (Option (RootOperation × Name)) := do
  let op ← operation
  punctuator .colon
  let type ← optionalIf isName name
  return type.map (op, ·)

/-- The entry points in braces, or none where there are no braces. -/
def rootOperations : Rule (Option (List (RootOperation × Name))) := do
  let roots ← optionalIf (isPunctuator .openBrace)
    (enclosed .openBrace .closeBrace isName rootOperation)
  return roots.map (·.filterMap id)

def location : Rule DirectiveLocation :=
  take fun t => match t with
    | .name n => DirectiveLocation.ofText? n.text
    | _ => none

def directiveAfter (text : Option String) : Rule DirectiveNode := do
  keyword "directive"
  punctuator .at
  let n ← name
  let args ← argumentDefinitions
  let repeatable ← optionalIf (isKeyword "repeatable") (keyword "repeatable")
  keyword "on"
  let locations ← separated .pipe location
  return ⟨n, text, args, repeatable.isSome, locations⟩

def schemaAfter (text : Option String) : Rule SchemaNode := do
  keyword "schema"
  let applied ← constDirectives
  let roots ← rootOperations
  return ⟨text, applied, roots.getD []⟩

/-! ### Extensions -/

/-- Directives, entry points or both. The braces may be empty. -/
def schemaExtension : Rule SchemaExtension := do
  keyword "schema"
  let applied ← constDirectives
  let roots ← optionalIf (isPunctuator .openBrace) (do
    punctuator .openBrace
    let roots ← repeatWhile isName rootOperation
    punctuator .closeBrace
    return roots)
  let roots := roots.getD []
  if applied.isEmpty && roots.isEmpty then refuse
  return ⟨applied, roots.filterMap id⟩

def typeExtension (kind : TypeKind) : Rule TypeExtension := do
  let (n, applied, body) ← typeAfter kind
  if applied.isEmpty && body.isEmpty then refuse
  return ⟨n, applied, body⟩

/-! ### Executable definitions -/

/-- What follows three points with at most `depth` levels: the name of a fragment, or a
selection set, perhaps with a condition before it. -/
def spread (depth : Nat) (selectionSet : Rule Unit) : Rule Unit := do
  let named ← secondIs (fun t => isName t && !isKeyword "on" t)
  let conditional ← secondIs (isKeyword "on")
  let plain ← secondIs (fun t => isPunctuator .at t || isPunctuator .openBrace t)
  if !named && !conditional && !plain then refuse
  punctuator .spread
  if named then
    let _ ← name
    let _ ← directives true depth
  else
    if conditional then
      keyword "on"
      let _ ← name
    let _ ← directives true depth
    selectionSet

/-- A selected field with at most `depth` levels. A colon right after a name makes it an
alias. -/
def selectedField (depth : Nat) (selectionSet : Rule Unit) : Rule Unit := do
  if ← secondIs (isPunctuator .colon) then
    let _ ← name
    punctuator .colon
  let _ ← name
  let _ ← optionalIf (isPunctuator .openParen) (arguments true depth)
  let _ ← directives true depth
  let _ ← optionalIf (isPunctuator .openBrace) selectionSet

/-- A selection set with at most `depth` levels below and including it. -/
def selectionSet (depth : Nat) : Rule Unit := do
  punctuator .openBrace
  match depth with
  | 0 => refuse
  | depth + 1 =>
    let _ ← repeatSome (fun t => isName t || isPunctuator .spread t) (do
      if ← nextIs (isPunctuator .spread) then spread depth (selectionSet depth)
      else selectedField depth (selectionSet depth))
    punctuator .closeBrace

def variableDefinition : Rule Unit := do
  punctuator .dollar
  let _ ← name
  punctuator .colon
  let _ ← typeRef nestingLimit
  let _ ← optionalIf (isPunctuator .equals) (do
    punctuator .equals
    value false nestingLimit)
  let _ ← constDirectives

def operationDefinition : Rule Unit := do
  let _ ← operation
  let _ ← optionalIf isName name
  let _ ← optionalIf (isPunctuator .openParen)
    (enclosed .openParen .closeParen (isPunctuator .dollar) variableDefinition)
  let _ ← directives true nestingLimit
  selectionSet nestingLimit

/-- A fragment after the word that begins it. -/
def fragmentAfter : Rule Unit := do
  if ← nextIs (isKeyword "on") then refuse
  let _ ← name
  keyword "on"
  let _ ← name
  let _ ← directives true nestingLimit
  selectionSet nestingLimit

/-! ### Documents -/

/-- The kind of type that a word defines. -/
def typeKind? (t : Token) : Option TypeKind :=
  TypeKind.all.find? fun kind => isKeyword (keywordOf kind) t

/-- The kind of type whose keyword stands at the front. -/
def nextTypeKind : Rule (Option TypeKind) := fun ts =>
  some (ts.head?.bind fun t => typeKind? t.token, ts)

/-- Whether a word begins a definition that can be extended. -/
def startsExtensible (t : Token) : Bool := (typeKind? t).isSome || isKeyword "schema" t

/-- Whether a word begins a definition that may carry a description. -/
def startsDescribed (t : Token) : Bool := startsExtensible t || isKeyword "directive" t

/-- A definition after its description. -/
def describedAfter (text : Option String) : Rule Definition := do
  match ← nextTypeKind with
  | some kind =>
    let (n, applied, body) ← typeAfter kind
    return .type ⟨n, text, applied, body⟩
  | none =>
    if ← nextIs (isKeyword "directive") then return .directive (← directiveAfter text)
    else return .schema (← schemaAfter text)

def extension : Rule Definition := do
  if !(← secondIs startsExtensible) then refuse
  keyword "extend"
  match ← nextTypeKind with
  | some kind => return .extendType (← typeExtension kind)
  | none => return .extendSchema (← schemaExtension)

def definition : Rule Definition := do
  if ← nextIs (isKeyword "extend") then extension
  else if ← nextIs (isPunctuator .openBrace) then
    selectionSet nestingLimit
    return .executable
  else if ← nextIs (isKeyword "fragment") then
    keyword "fragment"
    fragmentAfter
    return .executable
  else if ← nextIs (fun t => RootOperation.all.any (fun op => isKeyword op.text t)) then
    operationDefinition
    return .executable
  else if ← nextIs isString then
    if ← secondIs (isKeyword "fragment") then
      let _ ← description
      fragmentAfter
      return .executable
    else if ← secondIs startsDescribed then
      let text ← description
      describedAfter text
    else refuse
  else describedAfter none

/-- A document is one definition or more. -/
def definitions : Rule (List Definition) := repeatSome (fun _ => true) definition

end Grammar

/-! ## Documents -/

namespace Document

/-- The document that a list of tokens spells. -/
def ofTokens? (ts : List Lexeme) : Option Document :=
  match Grammar.definitions ts with
  | some (ds, []) => some ⟨ds⟩
  | _ => none

/-- The document that a text spells, or nothing when the text breaks a rule anywhere. -/
def ofText? (s : String) : Option Document := (scan false s.toList).bind ofTokens?

end Document

end SchemaWeave.Sdl
