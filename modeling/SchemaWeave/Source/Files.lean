/-!
# Files

The files that sources may name, as a tree under the directory in which paths begin. Reading
gives the text of a file or the reason why there is none.

## Paths

A path is a list of steps between slashes. An empty step and a point stay where they are, two
points go up. A step can only be taken from a directory. Outside the tree, where a path leads
that goes up too far or begins with a slash, there are directories and nothing more is known.
-/

namespace SchemaWeave

/-- Why a file cannot be read. -/
inductive ReadFault where
  | notFound
  | notADirectory
  | isADirectory
  | nameTooLong
  | notText
  | nullInPath
deriving DecidableEq

namespace ReadFault

def message : ReadFault → String
  | notFound => "No such file or directory (os error 2)"
  | notADirectory => "Not a directory (os error 20)"
  | isADirectory => "Is a directory (os error 21)"
  | nameTooLong => "File name too long (os error 36)"
  | notText => "stream did not contain valid UTF-8"
  | nullInPath => "file name contained an unexpected NUL byte"

end ReadFault

/-- The bytes of each file, under the steps that lead to it. -/
structure Files where
  entries : List (List String × ByteArray)

namespace Files

def none : Files := ⟨[]⟩

/-- The steps of a path. -/
def steps (path : String) : List String := path.splitOn "/"

/-- Where a path leads that consists of steps in the tree. -/
def placeOf (path : String) : List String := (steps path).filter fun s => s != "" && s != "."

/-- The place of everything outside the tree. -/
def outside : List String := [".."]

/-- Whether a place is a directory: the beginning is one, and every place on the way to a
file. -/
def isDirectory (f : Files) (place : List String) : Bool :=
  place.isEmpty || place == outside
    || f.entries.any fun e => place.isPrefixOf e.1 && place ≠ e.1

/-- The file at a place. -/
def fileAt? (f : Files) (place : List String) : Option ByteArray := f.entries.lookup place

/-- The longest name of a file, in bytes. -/
def nameLimit : Nat := 255

/-- The longest path, in bytes. -/
def pathLimit : Nat := 4095

/-- The place that steps lead to from a place. -/
def walk (f : Files) (place : List String) : List String → Except ReadFault (List String)
  | [] => .ok place
  | s :: more =>
    if !f.isDirectory place then
      .error (if (f.fileAt? place).isSome then .notADirectory else .notFound)
    else if s == "" || s == "." then f.walk place more
    else if s == ".." then
      f.walk (if place.isEmpty || place == outside then outside else place.dropLast) more
    else if s.utf8ByteSize > nameLimit then .error .nameTooLong
    else f.walk (place ++ [s]) more

/-- The text of the file that a path leads to. -/
def read (f : Files) (path : String) : Except ReadFault String := do
  if path.contains '\x00' then .error .nullInPath
  if path.isEmpty then .error .notFound
  if path.utf8ByteSize > pathLimit then .error .nameTooLong
  let place ← f.walk (if path.startsWith "/" then outside else []) (steps path)
  match f.fileAt? place with
  | some bytes =>
    match String.fromUTF8? bytes with
    | some text => .ok text
    | Option.none => .error .notText
  | Option.none => .error (if f.isDirectory place then .isADirectory else .notFound)

end Files

end SchemaWeave
