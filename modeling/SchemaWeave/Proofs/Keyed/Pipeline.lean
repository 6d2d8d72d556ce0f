import SchemaWeave.Proofs.Keyed.Acquisition
import SchemaWeave.Proofs.Keyed.Names
import SchemaWeave.Proofs.Keyed.Rewrite
import SchemaWeave.Proofs.Merge.Resolution

/-!
# Names across a pipeline

A schema that is read from a text or a listing is keyed, and extensions, rules, the renaming of
entry points and merges with the built-in handlers keep schemas keyed, in whatever order they
follow each other. A merge is the only step that builds on several schemas at once.
-/

namespace SchemaWeave

/-! ## Merges -/

section Merge

variable {schemas : List Schema}

/-- The common definition of a directive has its name and its arguments from some schema. -/
theorem exists_get?_of_mergedDirective? {n : Name} {d : DirectiveDefinition}
    (h : mergedDirective? schemas n = some d) :
    ∃ s ∈ schemas, ∃ e, s.directiveDefinitions.get? n = some e ∧
      d.name = e.name ∧ d.arguments = e.arguments := by
  rw [mergedDirective?_eq] at h
  cases hcs : directiveCandidates schemas n with
  | nil =>
    rw [hcs] at h
    cases h
  | cons first rest =>
    have hmem : first ∈ directiveCandidates schemas n := hcs ▸ List.mem_cons_self
    obtain ⟨s, hs, hse⟩ := List.mem_filterMap.mp hmem
    obtain ⟨e, he, rfl⟩ := Option.map_eq_some_iff.mp hse
    rw [hcs, List.map_cons, DirectiveDefinition.combineAll?] at h
    split at h
    · cases h
      exact ⟨s, hs, e, he, rfl, rfl⟩
    · cases h

theorem mergeOutput_keyed (hk : ∀ s ∈ schemas, s.Keyed) :
    (mergeOutput .builtIn schemas).schema.Keyed where
  types := mergeOutput_typesKeyed fun s hs => (hk s hs).types
  bodies := mergeOutput_bodies_keyed hk
  directives := by
    rintro ⟨n, d⟩ hd
    obtain ⟨s, hs, e, he, hname, -⟩ :=
      exists_get?_of_mergedDirective? (Table.mem_entries_tabulate.mp hd).2
    exact hname.trans ((hk s hs).directives.of_get? he)
  arguments := by
    intro d hd
    obtain ⟨n, hn⟩ := Table.mem_values_iff.mp hd
    rw [Table.get?_eq_some_iff] at hn
    obtain ⟨s, hs, e, he, -, hargs⟩ :=
      exists_get?_of_mergedDirective? (Table.mem_entries_tabulate.mp hn).2
    rw [DirectiveDefinition.Keyed, hargs]
    exact (hk s hs).arguments e (Table.mem_values_of_get? he)

theorem mergeSchemas_keyed {m : Merged} (hk : ∀ s ∈ schemas, s.Keyed)
    (h : mergeSchemas .builtIn schemas = .ok m) : m.schema.Keyed := by
  obtain ⟨-, rfl⟩ := (mergeSchemas_eq_ok_iff fun s hs => (hk s hs).types).mp h
  exact mergeOutput_keyed hk

end Merge

/-! ## Pipelines -/

namespace Schema

/-- The schemas that a pipeline can give: those that are read from a text or listed by a remote
schema, and whatever the other stages make of such schemas, in any order. -/
inductive Derived : Schema → Prop where
  | read {name sdl : String} {s : Schema} (h : ofText name sdl = .ok s) : Derived s
  | listed {name : String} {l : Introspection.Listing} {s : Schema}
      (h : Introspection.convert name l = .ok s) : Derived s
  | extended {s s' : Schema} {xs : List Sdl.Document} (hs : Derived s)
      (h : s.extendBy xs = .ok s') : Derived s'
  | rewritten {s s' : Schema} {rule : Rule} (hs : Derived s) (h : rule.apply s = .ok s') :
      Derived s'
  | normalized {s s' : Schema} (hs : Derived s) (h : s.normalizeRoots = .ok s') : Derived s'
  | merged {ss : List Schema} {m : Merged} (hs : ∀ s ∈ ss, Derived s)
      (h : mergeSchemas .builtIn ss = .ok m) : Derived m.schema

theorem normalizeRoots_keyed {s s' : Schema} (hs : s.Keyed) (h : s.normalizeRoots = .ok s') :
    s'.Keyed :=
  normalizeRoots_induct (P := Schema.Keyed) (fun _ _ _ _ ho hs => Rule.outcome_keyed hs ho) h hs

theorem Derived.keyed {s : Schema} (h : s.Derived) : s.Keyed := by
  induction h with
  | read h => exact (ofText_keyed h).1
  | listed h => exact (Introspection.convert_keyed h).1
  | extended _ h ih => exact extendBy_keyed ih h
  | rewritten _ h ih => exact Rule.outcome_keyed ih (Rule.apply_eq_ok_iff.mp h)
  | normalized _ h ih => exact normalizeRoots_keyed ih h
  | merged _ h ih => exact mergeSchemas_keyed ih h

/-- In every schema of a pipeline each element is stored under its own name, and no name occurs
twice in one table or among the interfaces of a type or the members of a union. -/
theorem Derived.keyed_and_namesDistinct {s : Schema} (h : s.Derived) :
    s.Keyed ∧ s.NamesDistinct :=
  ⟨h.keyed, h.keyed.namesDistinct⟩

end Schema

/-- A quay with an entry point that leads to one type. -/
def quay (root type : Name) : Schema :=
  let ship : Name := ⟨"ship", by decide⟩
  let convoy : Name := ⟨"convoy", by decide⟩
  { Schema.empty "quay" with
    roots := ⟨some root, none, none⟩
    types := .ofList [
      (root, ⟨root, none, [], .object .empty (.ofList [(ship, .ofType ship (.named type))])⟩),
      (type, ⟨type, none, [], .object .empty
        (.ofList [(convoy, .ofType convoy (.list (.named type)))])⟩)] }

/-- A quay that is read, has one of its types renamed, gets the canonical name of its entry point
and is merged with a listed directive. -/
theorem keyed_and_namesDistinct_quay :
    let port : Name := ⟨"Port", by decide⟩
    let ship : Name := ⟨"Ship", by decide⟩
    let barge : Name := ⟨"Barge", by decide⟩
    let query := RootOperation.query.canonicalName
    let toll : Name := ⟨"toll", by decide⟩
    let tolls : Schema := { Schema.empty "tolls" with
      directiveDefinitions := .ofList [(toll, ⟨toll, none, .empty, false, [.field]⟩)] }
    ∃ m : Merged,
      Schema.ofText "quay" "schema{query:Port}type Port{ship:Ship}type Ship{convoy:[Ship]}"
        = .ok (quay port ship) ∧
      (Rule.renameType ship barge).apply (quay port ship) = .ok (quay port barge) ∧
      (quay port barge).normalizeRoots = .ok (quay query barge) ∧
      Introspection.convert "tolls" ⟨none, none, none, [], [⟨"toll", none, ["FIELD"], [], false⟩]⟩
        = .ok tolls ∧
      mergeSchemas .builtIn [quay query barge, tolls] = .ok m ∧ m.schema.Derived ∧
      m.schema.Keyed ∧ m.schema.NamesDistinct := by
  intro port ship barge query toll tolls
  have hread : Schema.ofText "quay" "schema{query:Port}type Port{ship:Ship}type Ship{convoy:[Ship]}"
      = .ok (quay port ship) := by decide +kernel
  have hrenamed : (Rule.renameType ship barge).apply (quay port ship) = .ok (quay port barge) := by
    decide
  have hnormalized : (quay port barge).normalizeRoots = .ok (quay query barge) := by decide
  have hlisted : Introspection.convert "tolls"
      ⟨none, none, none, [], [⟨"toll", none, ["FIELD"], [], false⟩]⟩ = .ok tolls := by decide
  have hquay : (quay query barge).Derived :=
    .normalized (.rewritten (.read hread) hrenamed) hnormalized
  have hderived : ∀ s ∈ [quay query barge, tolls], s.Derived :=
    List.forall_mem_cons.mpr ⟨hquay, List.forall_mem_singleton.mpr (.listed hlisted)⟩
  have hmerged := Schema.Derived.merged hderived rfl
  exact ⟨_, hread, hrenamed, hnormalized, hlisted, rfl, hmerged, hmerged.keyed_and_namesDistinct⟩

end SchemaWeave
