import SchemaWeave.Name

/-!
# Type references

A field, an argument or an input field names its type, possibly wrapped in lists, each layer
of which may be non-null. Non-null is part of a layer and not a wrapper of its own, so it
cannot be applied twice.
-/

namespace SchemaWeave

inductive TypeRef where
  | named (name : Name)
  | nonNullNamed (name : Name)
  | list (item : TypeRef)
  | nonNullList (item : TypeRef)
deriving DecidableEq

namespace TypeRef

/-- The name under all list layers. -/
def innerName : TypeRef → Name
  | named n => n
  | nonNullNamed n => n
  | list t => t.innerName
  | nonNullList t => t.innerName

/-- Whether the outermost layer is non-null. -/
def isNonNull : TypeRef → Bool
  | named _ => false
  | nonNullNamed _ => true
  | list _ => false
  | nonNullList _ => true

/-- The written form, such as `[Int!]`. -/
def text : TypeRef → String
  | named n => n.text
  | nonNullNamed n => n.text ++ "!"
  | list t => "[" ++ t.text ++ "]"
  | nonNullList t => "[" ++ t.text ++ "]!"

/-- The same layers around another name, when the innermost name is `old`. -/
def rename (old new : Name) : TypeRef → TypeRef
  | named n => named (if n = old then new else n)
  | nonNullNamed n => nonNullNamed (if n = old then new else n)
  | list t => list (t.rename old new)
  | nonNullList t => nonNullList (t.rename old new)

end TypeRef

end SchemaWeave
