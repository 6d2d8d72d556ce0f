/-!
# Lists without repetition

Interfaces of a type, members of a union and the schemas behind a definition are sets whose
order is kept: the first mention of an element decides its place and a later one adds nothing.

## View

`toList` is the whole value. `ofList` is described by it: the first occurrence of each element
survives, in order.
-/

namespace SchemaWeave

/-- A list in which nothing occurs twice. -/
structure Distinct (α : Type) where
  toList : List α
  nodup : toList.Nodup

namespace Distinct

variable {α β : Type}

@[ext]
theorem ext {s t : Distinct α} (h : s.toList = t.toList) : s = t := by
  cases s; cases t; cases h; rfl

instance [DecidableEq α] : DecidableEq (Distinct α) := fun s t =>
  decidable_of_iff (s.toList = t.toList) ⟨ext, fun h => h ▸ rfl⟩

def empty : Distinct α := ⟨[], List.nodup_nil⟩

instance : Inhabited (Distinct α) := ⟨empty⟩

@[simp] theorem toList_empty : (empty : Distinct α).toList = [] := rfl

def size (s : Distinct α) : Nat := s.toList.length

def isEmpty (s : Distinct α) : Bool := s.toList.isEmpty

/-- Keeps the elements that pass the test. -/
def filter (s : Distinct α) (p : α → Bool) : Distinct α :=
  ⟨s.toList.filter p, List.Nodup.sublist List.filter_sublist s.nodup⟩

section DecidableEq

variable [DecidableEq α] [DecidableEq β]

def contains (s : Distinct α) (a : α) : Bool := decide (a ∈ s.toList)

/-- Appends an element that is not there yet. -/
def insert (s : Distinct α) (a : α) : Distinct α :=
  if h : a ∈ s.toList then s
  else ⟨s.toList ++ [a], by
    refine List.nodup_append.mpr ⟨s.nodup, by simp, ?_⟩
    intro x hx y hy hxy
    rw [List.mem_singleton] at hy
    exact h (hy ▸ hxy ▸ hx)⟩

/-- Appends the elements of a list that are not there yet, in their order. -/
def append (s : Distinct α) (l : List α) : Distinct α := l.foldl insert s

/-- The first occurrences of a list's elements. -/
def ofList (l : List α) : Distinct α := empty.append l

/-- Takes one element out. -/
def erase (s : Distinct α) (a : α) : Distinct α := s.filter (· ≠ a)

/-- The images of the elements; of two elements with one image the first counts. -/
def map (s : Distinct α) (f : α → β) : Distinct β := ofList (s.toList.map f)

end DecidableEq

end Distinct

end SchemaWeave
