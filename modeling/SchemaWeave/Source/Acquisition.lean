import SchemaWeave.Introspection.Conversion
import SchemaWeave.Introspection.Query
import SchemaWeave.Schema.Extension
import SchemaWeave.Source.Files
import SchemaWeave.Text.Escaped

/-!
# Sources

A schema comes from a text, from a file, or from a remote schema that is asked the
introspection query. An extension comes from a text or a file.

## Failures

Every source is tried and every failure is reported, in the order of the sources.
-/

namespace SchemaWeave

/-! ## Failures -/

/-- Why a source gives no schema. -/
inductive AcquisitionFault where
  | notReadable
  | fileUnreadable (path : String) (fault : ReadFault)
  | transport (message : String)
  | malformed (fault : Introspection.Malformation)
  | invalid (causes : List ExtensionError)
deriving DecidableEq

/-- A fault with the schema it was met for. -/
structure AcquisitionError where
  schema : String
  fault : AcquisitionFault
deriving DecidableEq

namespace AcquisitionError

/-- The fault in words, unless they are for the reader of the text to say. -/
def message (e : AcquisitionError) : Option String :=
  match e.fault with
  | .notReadable => none
  | .fileUnreadable path fault =>
    some ("could not read " ++ path ++ " for \"" ++ e.schema ++ "\": " ++ fault.message)
  | .transport message =>
    some ("introspection of schema \"" ++ e.schema ++ "\" failed: " ++ message)
  | .malformed fault =>
    fault.message.map fun m =>
      "schema \"" ++ e.schema ++ "\" returned a malformed introspection result: " ++ m
  | .invalid causes =>
    (causes.mapM ExtensionError.message).map fun ms =>
      "schema \"" ++ e.schema ++ "\" is not a valid type system document: " ++ "; ".intercalate ms

end AcquisitionError

/-! ## Sources -/

/-- Sends a request to the remote schema of a given name and gives the answer or a message. -/
abbrev Transport := String → Introspection.Request → Except String String

inductive SchemaSource where
  | text (sdl : String)
  | file (path : String)
  | introspection (transport : Transport)

inductive ExtensionSource where
  | text (sdl : String)
  | file (path : String)
deriving DecidableEq

/-! ## Acquisition -/

/-- The schema that a text defines. -/
def Schema.ofText (name sdl : String) : Except AcquisitionError Schema :=
  match Sdl.Document.ofText? sdl with
  | none => .error ⟨name, .notReadable⟩
  | some d => (Schema.ofDocument name d).mapError fun causes => ⟨name, .invalid causes⟩

/-- The text of a file that belongs to a schema. -/
def readFor (files : Files) (schema path : String) : Except AcquisitionError String :=
  (files.read path).mapError fun fault => ⟨schema, .fileUnreadable path fault⟩

/-- The schema of a remote service. -/
def introspect (name : String) (transport : Transport) : Except AcquisitionError Schema := do
  let response ← (transport name Introspection.request).mapError fun m => ⟨name, .transport m⟩
  (Introspection.ofText name response).mapError fun fault => ⟨name, .malformed fault⟩

namespace SchemaSource

/-- A source in short: a text is told by its length in bytes. -/
def label : SchemaSource → String
  | text sdl => "Sdl(" ++ toString sdl.utf8ByteSize ++ ")"
  | file path => "File(" ++ Text.escaped path ++ ")"
  | introspection _ => "Introspection"

/-- The schema that a source gives under a name. -/
def acquire (files : Files) (name : String) : SchemaSource → Except AcquisitionError Schema
  | text sdl => Schema.ofText name sdl
  | file path => do Schema.ofText name (← readFor files name path)
  | introspection transport => introspect name transport

end SchemaSource

namespace ExtensionSource

/-- The text of an extension for a schema. -/
def load (files : Files) (schema : String) : ExtensionSource → Except AcquisitionError String
  | text sdl => .ok sdl
  | file path => readFor files schema path

end ExtensionSource

/-- The schemas of all sources, or every failure. -/
def acquireAll (files : Files) (sources : List (String × SchemaSource)) :
    Except (List AcquisitionError) (List Schema) :=
  collectResults (sources.map fun s => s.2.acquire files s.1)

end SchemaWeave
