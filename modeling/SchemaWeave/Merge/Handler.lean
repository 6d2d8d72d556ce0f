import SchemaWeave.Merge.Conflict

/-!
# Merge handlers

A type that several schemas define is combined by a handler, which is any function from the
definitions to one definition or a conflict. Handlers are registered for a kind of type with a
priority.

## Which handler is asked

The one with the greatest priority among those for the kind, and among equals the one that was
registered first. The built-in handlers are registered first of all, with the least priority
there is.
-/

namespace SchemaWeave

/-- One schema's definition of a type. -/
structure Candidate where
  schema : String
  definition : TypeDefinition
deriving DecidableEq

/-- Combines the definitions that several schemas give of one type. -/
abbrev Handler := Name → List Candidate → Except Conflict TypeDefinition

structure Registration where
  kind : TypeKind
  priority : Int32
  handler : Handler

/-- Handlers in the order of their registration. -/
structure Registry where
  registrations : List Registration

namespace Registry

/-- The priority of the built-in handlers. -/
def leastPriority : Int32 := Int32.minValue

def register (r : Registry) (kind : TypeKind) (priority : Int32) (handler : Handler) : Registry :=
  ⟨r.registrations ++ [⟨kind, priority, handler⟩]⟩

/-- The better of two registrations, where a later one has to have a greater priority. -/
def prefer (best : Option Registration) (next : Registration) : Option Registration :=
  match best with
  | none => some next
  | some b => if b.priority < next.priority then some next else some b

/-- The registration that counts for a kind. -/
def select (r : Registry) (kind : TypeKind) : Option Registration :=
  (r.registrations.filter fun x => x.kind = kind).foldl prefer none

/-- The handler that is asked to combine types of a kind. -/
def handlerFor (r : Registry) (kind : TypeKind) : Option Handler :=
  (r.select kind).map Registration.handler

end Registry

end SchemaWeave
