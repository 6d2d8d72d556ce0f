/-!
# Tables

A table maps keys to entries and remembers the order in which the keys first came in. Type
systems are printed, merged and compared in that order, so it is part of the value.

## Invariant

No key occurs twice. The invariant is a field of the type, so every operation below proves
that it keeps it, and a reader of a table never has to ask which of two entries counts.

## View

`entries` is the whole table as a list of pairs. Each operation is described by what it does
to `entries` or to `keys`; nothing else about its definition is needed outside this file.
-/

namespace SchemaWeave

/-- Entries in the order of their keys' first insertion. -/
structure Table (κ α : Type) where
  entries : List (κ × α)
  nodup : (entries.map Prod.fst).Nodup

namespace Table

variable {κ α β : Type}

@[ext]
theorem ext {s t : Table κ α} (h : s.entries = t.entries) : s = t := by
  cases s; cases t; cases h; rfl

instance [DecidableEq κ] [DecidableEq α] : DecidableEq (Table κ α) := fun s t =>
  decidable_of_iff (s.entries = t.entries) ⟨ext, fun h => h ▸ rfl⟩

/-! ## Reading -/

def empty : Table κ α := ⟨[], List.nodup_nil⟩

instance : Inhabited (Table κ α) := ⟨empty⟩

def keys (t : Table κ α) : List κ := t.entries.map Prod.fst

def values (t : Table κ α) : List α := t.entries.map Prod.snd

def size (t : Table κ α) : Nat := t.entries.length

def isEmpty (t : Table κ α) : Bool := t.entries.isEmpty

@[simp] theorem entries_empty : (empty : Table κ α).entries = [] := rfl

@[simp] theorem keys_empty : (empty : Table κ α).keys = [] := rfl

theorem keys_nodup (t : Table κ α) : t.keys.Nodup := t.nodup

section Lookup

variable [DecidableEq κ]

/-- The entry under a key. -/
def get? (t : Table κ α) (k : κ) : Option α := t.entries.lookup k

def contains (t : Table κ α) (k : κ) : Bool := (t.get? k).isSome

end Lookup

/-! ## Writing -/

section Insert

variable [DecidableEq κ]

/-- Puts an entry under a key: in place when the key is there, at the end when it is new. -/
def insertEntry (k : κ) (a : α) : List (κ × α) → List (κ × α)
  | [] => [(k, a)]
  | e :: rest => if e.1 = k then (k, a) :: rest else e :: insertEntry k a rest

theorem map_fst_insertEntry (k : κ) (a : α) (l : List (κ × α)) :
    (insertEntry k a l).map Prod.fst
      = if k ∈ l.map Prod.fst then l.map Prod.fst else l.map Prod.fst ++ [k] := by
  induction l with
  | nil => simp [insertEntry]
  | cons e rest ih =>
    by_cases h : e.1 = k
    · simp [insertEntry, h]
    · have h' : ¬ k = e.1 := fun hk => h hk.symm
      by_cases hm : k ∈ rest.map Prod.fst
      · simp [insertEntry, h, h', ih, hm]
      · simp [insertEntry, h, h', ih, hm]

theorem nodup_insertEntry {k : κ} {a : α} {l : List (κ × α)} (h : (l.map Prod.fst).Nodup) :
    ((insertEntry k a l).map Prod.fst).Nodup := by
  rw [map_fst_insertEntry]
  split
  · exact h
  · next hk =>
    refine List.nodup_append.mpr ⟨h, by simp, ?_⟩
    intro x hx y hy hxy
    rw [List.mem_singleton] at hy
    exact hk (hy ▸ hxy ▸ hx)

/-- Puts an entry under a key: in place when the key is there, at the end when it is new. -/
def insert (t : Table κ α) (k : κ) (a : α) : Table κ α :=
  ⟨insertEntry k a t.entries, nodup_insertEntry t.nodup⟩

/-- Adds an entry under a new key; a key that is there keeps its entry. -/
def insertIfNew (t : Table κ α) (k : κ) (a : α) : Table κ α :=
  if t.contains k then t else t.insert k a

/-- The table of a list of pairs. A repeated key keeps its first place and takes the last
entry. -/
def ofList (l : List (κ × α)) : Table κ α :=
  l.foldl (fun t e => t.insert e.1 e.2) empty

end Insert

/-! ## Narrowing and changing entries -/

/-- Keeps the entries that pass the test, in their order. -/
def filter (t : Table κ α) (p : κ → α → Bool) : Table κ α :=
  ⟨t.entries.filter (fun e => p e.1 e.2),
    List.Nodup.sublist (List.Sublist.map _ List.filter_sublist) t.nodup⟩

/-- Takes one key out, with its entry. -/
def erase [DecidableEq κ] (t : Table κ α) (k : κ) : Table κ α :=
  t.filter (fun k' _ => k' ≠ k)

theorem map_fst_map_snd (f : κ → α → β) (l : List (κ × α)) :
    (l.map (fun e => (e.1, f e.1 e.2))).map Prod.fst = l.map Prod.fst := by
  simp [List.map_map, Function.comp_def]

/-- Changes every entry and no key. -/
def map (t : Table κ α) (f : κ → α → β) : Table κ β :=
  ⟨t.entries.map (fun e => (e.1, f e.1 e.2)), by rw [map_fst_map_snd]; exact t.nodup⟩

/-- Changes the entry under one key. -/
def modify [DecidableEq κ] (t : Table κ α) (k : κ) (f : α → α) : Table κ α :=
  t.map (fun k' a => if k' = k then f a else a)

/-- Moves the entry under `k` to the key `k'` and changes it; every entry keeps its place
as long as `k'` is a new key. -/
def rekey [DecidableEq κ] (t : Table κ α) (k k' : κ) (f : α → α) : Table κ α :=
  ofList (t.entries.map (fun e => if e.1 = k then (k', f e.2) else e))

end Table

end SchemaWeave
