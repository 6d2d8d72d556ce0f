import SchemaWeave.Proofs.Document.RoundTrip
import SchemaWeave.Proofs.Extension.Growth
import SchemaWeave.Proofs.Results

/-!
# Several `schema` definitions

A schema may be given several `schema` definitions, by one document or by several. The directives of
all of them are applied one after another and an entry point is set once, so what each of them says
of these stays. A description takes the place of the one before it. It is kept only where the last
one says the same.
-/

namespace SchemaWeave

open Sdl

/-! ## What documents say of the schema itself -/

namespace Sdl

/-- The description that a definition gives the schema, if it gives one. -/
def Definition.descriptions : Definition → List String
  | .schema node => node.description.toList
  | _ => []

/-- The directives that a definition applies to the schema. -/
def Definition.definedDirectives : Definition → List Directive
  | .schema node => node.directives
  | _ => []

/-- The directives that an `extend` form applies to the schema. -/
def Definition.extendedDirectives : Definition → List Directive
  | .extendSchema e => e.directives
  | _ => []

namespace Document

/-- The descriptions that a document gives the schema, in their order. -/
def descriptions (x : Document) : List String := x.definitions.flatMap Definition.descriptions

/-- The directives that a document applies to the schema, those of `extend` forms at the end. -/
def schemaDirectives (x : Document) : List Directive :=
  x.definitions.flatMap Definition.definedDirectives
    ++ x.definitions.flatMap Definition.extendedDirectives

theorem mem_descriptions {x : Document} {t : String} :
    t ∈ x.descriptions ↔ ∃ node, .schema node ∈ x.definitions ∧ node.description = some t := by
  rw [descriptions, List.mem_flatMap]
  constructor
  · rintro ⟨y, hy, ht⟩
    cases y with
    | schema node => exact ⟨node, hy, Option.mem_toList.mp ht⟩
    | _ => cases ht
  · rintro ⟨node, hnode, ht⟩
    exact ⟨.schema node, hnode, Option.mem_toList.mpr ht⟩

end Document

/-- Whether a schema has the entry points of a `schema` definition. -/
def SchemaNode.RootsIn (node : SchemaNode) (s : Schema) : Prop :=
  ∀ e ∈ node.roots, s.roots.get e.1 = some e.2

theorem SchemaNode.RootsIn.growsTo {node : SchemaNode} {s s' : Schema} (h : node.RootsIn s)
    (hgrows : s.GrowsTo s') : node.RootsIn s' :=
  fun e he => hgrows.roots e.1 e.2 (h e he)

end Sdl

/-! ## Descriptions and directives -/

/-- What is there stays exactly when what takes its place is the same. -/
theorem or_some_eq_iff {α : Type} {o : Option α} {a : α} :
    o.or (some a) = some a ↔ ∀ b ∈ o, b = a := by
  cases o <;> simp

theorem forall_getLast?_eq_iff {α : Type} {l : List α} :
    (∀ a ∈ l, l.getLast? = some a) ↔ ∀ a ∈ l, ∀ b ∈ l, a = b := by
  constructor
  · intro h a ha b hb
    exact Option.some.inj ((h a ha).symm.trans (h b hb))
  · intro h a ha
    have hne := List.ne_nil_of_mem ha
    rw [List.getLast?_eq_some_getLast hne, h a ha _ (List.getLast_mem hne)]

namespace Schema

variable {α : Type} {step : Schema → α → Faulty Schema} {s s' : Schema}

theorem define_own (s : Schema) (x : Definition) :
    (s.define x).1.description = x.descriptions.getLast?.or s.description ∧
      (s.define x).1.directives = s.directives ++ x.definedDirectives := by
  cases x with
  | schema node =>
    refine ⟨?_, rfl⟩
    show (if node.description.isSome then node.description else s.description)
      = node.description.toList.getLast?.or s.description
    cases node.description <;> rfl
  | directive node =>
    unfold define
    simp only
    split <;> exact ⟨rfl, (List.append_nil _).symm⟩
  | type node =>
    unfold define
    simp only
    split <;> exact ⟨rfl, (List.append_nil _).symm⟩
  | _ => exact ⟨rfl, (List.append_nil _).symm⟩

theorem extend_own (s : Schema) (x : Definition) :
    (s.extend x).1.description = s.description ∧
      (s.extend x).1.directives = s.directives ++ x.extendedDirectives := by
  cases x with
  | extendSchema e => exact ⟨rfl, rfl⟩
  | extendType e =>
    show (s.extendType e).1.description = s.description ∧
      (s.extendType e).1.directives = s.directives ++ []
    rw [List.append_nil]
    unfold extendType
    simp only
    split
    · exact ⟨rfl, rfl⟩
    · split <;> exact ⟨rfl, rfl⟩
  | _ => exact ⟨rfl, (List.append_nil _).symm⟩

/-- What each step adds of its own to a part of the schema, all steps add in their order. -/
theorem collect_adds {β γ : Type} (part : Schema → β) (add : β → List γ → β) {given : α → List γ}
    (hnil : ∀ b, add b [] = b) (happend : ∀ b k l, add b (k ++ l) = add (add b k) l)
    (hstep : ∀ s a, part (step s a).1 = add (part s) (given a)) (s : Schema) (l : List α) :
    part (collect step s l).1 = add (part s) (l.flatMap given) := by
  induction l generalizing s with
  | nil => exact (hnil _).symm
  | cons a l ih =>
    show part (collect step (step s a).1 l).1 = _
    rw [ih, hstep, List.flatMap_cons, happend]

/-- The last description that the steps give is the one that stays. -/
theorem collect_description {given : α → List String}
    (hstep : ∀ s a, (step s a).1.description = (given a).getLast?.or s.description) (s : Schema)
    (l : List α) :
    (collect step s l).1.description = (l.flatMap given).getLast?.or s.description :=
  collect_adds description (fun o l => l.getLast?.or o) (fun _ => rfl)
    (fun o k l => by rw [List.getLast?_append, Option.or_assoc]) hstep s l

theorem collect_directives {given : α → List Directive}
    (hstep : ∀ s a, (step s a).1.directives = s.directives ++ given a) (s : Schema) (l : List α) :
    (collect step s l).1.directives = s.directives ++ l.flatMap given :=
  collect_adds directives (· ++ ·) List.append_nil (fun o k l => (List.append_assoc o k l).symm)
    hstep s l

theorem addDocument_description (s : Schema) (x : Document) :
    (s.addDocument x).1.description = x.descriptions.getLast?.or s.description := by
  have hdefined := collect_description (fun s y => (define_own s y).1) s x.definitions
  exact collect_induct (P := fun s' => s'.description = _)
    (fun s' y h => (extend_own s' y).1.trans h) x.definitions hdefined

theorem addDocument_directives (s : Schema) (x : Document) :
    (s.addDocument x).1.directives = s.directives ++ x.schemaDirectives := by
  have hdefined := collect_directives (fun s y => (define_own s y).2) s x.definitions
  have hextended := collect_directives (fun s y => (extend_own s y).2)
    (collect define s x.definitions).1 x.definitions
  rw [hdefined, List.append_assoc] at hextended
  exact hextended

/-- The last description that documents give is the one that stays. -/
theorem extendBy_description {xs : List Document} (h : s.extendBy xs = .ok s') :
    s'.description = (xs.flatMap Document.descriptions).getLast?.or s.description := by
  rw [← (extendBy_eq_ok h).1, collect_description addDocument_description]

theorem extendBy_directives {xs : List Document} (h : s.extendBy xs = .ok s') :
    s'.directives = s.directives ++ xs.flatMap Document.schemaDirectives := by
  rw [← (extendBy_eq_ok h).1, collect_directives addDocument_directives]

end Schema

/-! ## Entry points -/

theorem addRoots_get_of_mem {r : RootOperations} {l : List (RootOperation × Name)}
    (h : (addRoots r l).2 = []) {e : RootOperation × Name} (he : e ∈ l) :
    (addRoots r l).1.get e.1 = some e.2 := by
  induction l generalizing r with
  | nil => cases he
  | cons entry l ih =>
    obtain ⟨op, n⟩ := entry
    unfold addRoots at h ⊢
    split at h
    · cases h
    · next hnone =>
      rcases List.mem_cons.mp he with rfl | he
      · exact addRoots_get _ _ (RootOperations.get_set_self r op (some n))
      · exact ih h he

namespace Schema

variable {α : Type} {step : Schema → α → Faulty Schema} {s s' : Schema} {node : SchemaNode}

/-- Entry points that one of the steps sets are there after all of them. -/
theorem rootsIn_collect (hgrows : ∀ (s : Schema) a, s.GrowsTo (step s a).1) {a : α}
    (hstep : ∀ s, (step s a).2 = [] → node.RootsIn (step s a).1) {l : List α}
    (h : (collect step s l).2 = []) (ha : a ∈ l) : node.RootsIn (collect step s l).1 := by
  induction l generalizing s with
  | nil => cases ha
  | cons b l ih =>
    obtain ⟨hb, hl⟩ := collect_cons_faults_eq_nil_iff.mp h
    rcases List.mem_cons.mp ha with rfl | ha
    · exact (hstep s hb).growsTo (collect_growsTo hgrows _ l)
    · exact ih hl ha

theorem rootsIn_addDocument {x : Document} (hnode : .schema node ∈ x.definitions)
    (h : (s.addDocument x).2 = []) : node.RootsIn (s.addDocument x).1 := by
  have hdefine (s : Schema) (h : (s.define (.schema node)).2 = []) :
      node.RootsIn (s.define (.schema node)).1 := fun _ he => addRoots_get_of_mem h he
  have hdefined := rootsIn_collect define_growsTo hdefine (List.append_eq_nil_iff.mp h).1 hnode
  exact hdefined.growsTo (collect_growsTo extend_growsTo _ x.definitions)

theorem rootsIn_extendBy {xs : List Document} (h : s.extendBy xs = .ok s') {x : Document}
    (hx : x ∈ xs) (hnode : .schema node ∈ x.definitions) : node.RootsIn s' := by
  obtain ⟨rfl, hfaults⟩ := extendBy_eq_ok h
  exact rootsIn_collect addDocument_growsTo (fun _ => rootsIn_addDocument hnode) hfaults hx

theorem inferRoots_growsTo (s : Schema) : s.GrowsTo s.inferRoots :=
  { GrowsTo.refl s with roots := fun op n h => by rw [inferRoots_get, h, Option.some_or] }

/-! ## What is kept -/

/-- What a document gives is what it extends the empty schema to, with entry points that are found
by their names. -/
theorem exists_extendBy_of_ofDocument {name : String} {x : Document}
    (h : ofDocument name x = .ok s) :
    ∃ s₀ r, (empty name).extendBy [x] = .ok s₀ ∧ s = { s₀ with roots := r } ∧ s₀.GrowsTo s := by
  rw [ofDocument_eq, map_eq_ok_iff] at h
  obtain ⟨s₀, hs₀, rfl⟩ := h
  cases x.hasNode with
  | true => exact ⟨s₀, s₀.roots, hs₀, rfl, GrowsTo.refl s₀⟩
  | false => exact ⟨s₀, s₀.inferRoots.roots, hs₀, rfl, inferRoots_growsTo s₀⟩

/-- The directives and the entry points of every `schema` definition stay, whether documents extend
a schema or one document gives it. The description of a schema stays when documents extend it
exactly when the last one that they give is the same, and the descriptions that one document gives
all stay exactly when they are all the same. -/
theorem schemaNodes_kept_iff (s : Schema) (xs : List Document) (name : String) (x : Document) :
    (∀ s', s.extendBy xs = .ok s' →
      s'.directives = s.directives ++ xs.flatMap Document.schemaDirectives ∧
      (∀ op n, s.roots.get op = some n → s'.roots.get op = some n) ∧
      (∀ y ∈ xs, ∀ node, .schema node ∈ y.definitions → node.RootsIn s') ∧
      ((∀ t, s.description = some t → s'.description = some t) ↔
        ∀ t, s.description = some t →
          ∀ u ∈ (xs.flatMap Document.descriptions).getLast?, u = t)) ∧
    ∀ s', ofDocument name x = .ok s' →
      s'.directives = x.schemaDirectives ∧
      (∀ node, .schema node ∈ x.definitions → node.RootsIn s') ∧
      ((∀ node, .schema node ∈ x.definitions →
          ∀ t, node.description = some t → s'.description = some t) ↔
        ∀ t ∈ x.descriptions, ∀ u ∈ x.descriptions, t = u) := by
  constructor
  · intro s' h
    refine ⟨extendBy_directives h, (extendBy_growsTo h).roots,
      fun y hy node hnode => rootsIn_extendBy h hy hnode, forall₂_congr fun t ht => ?_⟩
    rw [extendBy_description h, ht, or_some_eq_iff]
  · intro s' h
    obtain ⟨s₀, r, hs₀, rfl, hgrows⟩ := exists_extendBy_of_ofDocument h
    have hlast : s₀.description = x.descriptions.getLast? := by
      rw [extendBy_description hs₀, List.flatMap_singleton]
      exact Option.or_none
    refine ⟨?_, fun node hnode => ?_, ?_⟩
    · rw [extendBy_directives hs₀, List.flatMap_singleton]
      rfl
    · exact (rootsIn_extendBy hs₀ List.mem_cons_self hnode).growsTo hgrows
    · rw [← forall_getLast?_eq_iff, ← hlast]
      constructor
      · intro hkept t ht
        obtain ⟨node, hnode, hnt⟩ := Document.mem_descriptions.mp ht
        exact hkept node hnode t hnt
      · intro hsame node hnode t hnt
        exact hsame t (Document.mem_descriptions.mpr ⟨node, hnode, hnt⟩)

end Schema

/-- A `schema` definition of an archive, with one description and one entry point. -/
def archiveNode (description : String) (root : RootOperation × Name) : SchemaNode :=
  ⟨some description, [⟨⟨"catalogued", by decide⟩, []⟩], [root]⟩

/-- The letters of an archive and those who copy them, with `schema` definitions. -/
def archiveDocument (nodes : List SchemaNode) : Document :=
  let letter : Name := ⟨"Letter", by decide⟩
  let scribe : Name := ⟨"Scribe", by decide⟩
  let node (field : Name) : FieldNode := ⟨field, none, [], .named letter, []⟩
  ⟨nodes.map .schema ++ [.type ⟨letter, none, [], .object [] [node ⟨"answers", by decide⟩]⟩,
    .type ⟨scribe, none, [], .object [] [node ⟨"copies", by decide⟩]⟩]⟩

/-- The archive keeps its description and both `schema` definitions, whether the second one is in
its document or in one that extends it. -/
theorem schemaNodes_kept_archive :
    let letters := archiveNode "Letters" (.query, ⟨"Letter", by decide⟩)
    let copies := archiveNode "Letters" (.mutation, ⟨"Scribe", by decide⟩)
    ∃ s s' s'', Schema.ofDocument "archive" (archiveDocument [letters]) = .ok s ∧
      s.extendBy [⟨[.schema copies]⟩] = .ok s' ∧ s'.description = some "Letters" ∧
      s'.directives = s.directives ++ copies.directives ∧ copies.RootsIn s' ∧
      Schema.ofDocument "archive" (archiveDocument [letters, copies]) = .ok s'' ∧
      s''.description = some "Letters" ∧ s''.directives = letters.directives ++ copies.directives ∧
      letters.RootsIn s'' ∧ copies.RootsIn s'' := by
  intro letters copies
  obtain ⟨s, hs, hletters, s', hs'⟩ : ∃ s, Schema.ofDocument "archive" (archiveDocument [letters])
      = .ok s ∧ s.description = some "Letters" ∧
      ∃ s', s.extendBy [⟨[.schema copies]⟩] = .ok s' := ⟨_, rfl, rfl, _, rfl⟩
  obtain ⟨s'', hs''⟩ : ∃ s'', Schema.ofDocument "archive" (archiveDocument [letters, copies])
      = .ok s'' := ⟨_, rfl⟩
  obtain ⟨hextended, hdocument⟩ := Schema.schemaNodes_kept_iff s [⟨[.schema copies]⟩] "archive"
    (archiveDocument [letters, copies])
  obtain ⟨hdirectives, -, hroots, hkept⟩ := hextended s' hs'
  obtain ⟨hdirectives', hroots', hkept'⟩ := hdocument s'' hs''
  have hlast : ∀ t, s.description = some t →
      ∀ u ∈ ([⟨[.schema copies]⟩].flatMap Document.descriptions).getLast?, u = t := by
    rw [hletters]
    rintro t ⟨⟩ u ⟨⟩
    rfl
  refine ⟨s, s', s'', hs, hs', hkept.mpr hlast _ hletters, hdirectives,
    hroots _ List.mem_cons_self copies List.mem_cons_self, hs'', ?_, hdirectives',
    hroots' letters (by decide), hroots' copies (by decide)⟩
  exact hkept'.mpr (by decide) letters (by decide) _ rfl

/-- A second `schema` definition with another description takes the place of the first one, in the
document of the archive as in one that extends it. One that sets an entry point again is a fault. -/
theorem not_schemaNodes_kept_archive :
    let letters := archiveNode "Letters" (.query, ⟨"Letter", by decide⟩)
    let maps := archiveNode "Maps" (.mutation, ⟨"Scribe", by decide⟩)
    ∃ s s' s'', Schema.ofDocument "archive" (archiveDocument [letters]) = .ok s ∧
      s.description = some "Letters" ∧
      s.extendBy [⟨[.schema maps]⟩] = .ok s' ∧ s'.description = some "Maps" ∧
      Schema.ofDocument "archive" (archiveDocument [letters, maps]) = .ok s'' ∧
      s''.description = some "Maps" ∧
      s.extendBy [⟨[.schema letters]⟩]
        = .error [⟨"archive", .rootDefined .query ⟨"Letter", by decide⟩⟩] :=
  ⟨_, _, _, rfl, rfl, rfl, rfl, rfl, rfl, by decide⟩

end SchemaWeave
