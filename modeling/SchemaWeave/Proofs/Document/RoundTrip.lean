import SchemaWeave.Proofs.EntryPoints
import SchemaWeave.Proofs.Extension.Growth
import SchemaWeave.Proofs.Keyed.Basic
import SchemaWeave.Schema.Tree

/-!
# Schemas read back from their documents

The document of a keyed schema is read without faults, and gives the schema back: each table is
filled again entry by entry, in its order, and no element is met twice. Only the entry points may
be others. Where the document has no `schema` definition, they are found by the canonical names
alone, so they come back exactly when the schema has those that the canonical names give.
-/

namespace SchemaWeave

open Sdl

/-! ## Tables and lists -/

/-- Elements that convert without faults to what a table holds fill the empty table to that one. -/
theorem addEntries_values {α β : Type} {key : α → Name} {fault : α → DocumentFault}
    {convert : α → Faulty β} {t : Table Name β} {node : β → α}
    (h : ∀ e ∈ t.entries, key (node e.2) = e.1 ∧ convert (node e.2) = (e.2, [])) :
    addEntries key fault convert .empty (t.values.map node) = (t, []) := by
  rw [Table.values, List.map_map]
  refine Table.fill_induct (t := t) (P := fun t' es =>
    addEntries key fault convert t' (es.map fun e => node e.2) = (t, [])) rfl ?_
  intro t' k b es he hk ih
  obtain ⟨hkey, hconvert⟩ := h (k, b) he
  rw [List.map_cons, addEntries, hkey, if_neg (by rwa [Table.contains_iff]), hconvert]
  simp only [ih, List.append_nil]

theorem addElements_toList (fault : Name → DocumentFault) (s : Distinct Name) :
    addElements fault .empty s.toList = (s, []) := by
  refine Distinct.fill_induct (s := s) (P := fun s' ns => addElements fault s' ns = (s, [])) rfl ?_
  intro s' n ns hn ih
  rw [addElements, ih]
  simp [Distinct.contains, hn]

/-! ## Definitions -/

theorem argumentTable_values (owner : ArgumentOwner) {args : Table Name InputValue}
    (h : args.Keyed InputValue.name) : argumentTable owner args.values = (args, []) := by
  rw [argumentTable, ← List.map_id args.values]
  exact addEntries_values fun e he => ⟨h e he, rfl⟩

theorem inputFieldTable_values (type : Name) {fields : Table Name InputValue}
    (h : fields.Keyed InputValue.name) : inputFieldTable type fields.values = (fields, []) := by
  rw [inputFieldTable, ← List.map_id fields.values]
  exact addEntries_values fun e he => ⟨h e he, rfl⟩

theorem enumValueTable_values (type : Name) {values : Table Name EnumValue}
    (h : values.Keyed EnumValue.name) : enumValueTable type values.values = (values, []) := by
  rw [enumValueTable, ← List.map_id values.values]
  exact addEntries_values fun e he => ⟨h e he, rfl⟩

theorem fieldOfNode_toNode (type : Name) {f : Field} (h : f.Keyed) :
    fieldOfNode type f.toNode = (f, []) := by
  show ((⟨f.name, f.description, (argumentTable _ f.arguments.values).1, f.type,
    f.directives⟩, (argumentTable _ f.arguments.values).2) : Faulty Field) = _
  rw [argumentTable_values _ h]

theorem fieldTable_values (type : Name) {fields : Table Name Field}
    (h : fields.Keyed Field.name ∧ ∀ f ∈ fields.values, f.Keyed) :
    fieldTable type (fields.values.map Field.toNode) = (fields, []) :=
  addEntries_values fun e he =>
    ⟨h.1 e he, fieldOfNode_toNode type (h.2 e.2 (Table.mem_values_of_mem he))⟩

theorem bodyOfNode_toBody (type : Name) {b : TypeBody} (h : b.Keyed) :
    bodyOfNode type b.toBody = (b, []) := by
  cases b with
  | scalar => rfl
  | object interfaces fields =>
    simp only [TypeBody.toBody, bodyOfNode, fieldTable_values type h, Distinct.ofList_toList]
  | interface interfaces fields =>
    simp only [TypeBody.toBody, bodyOfNode, fieldTable_values type h, Distinct.ofList_toList]
  | union members => simp only [TypeBody.toBody, bodyOfNode, memberSet, addElements_toList]
  | enum values => simp only [TypeBody.toBody, bodyOfNode, enumValueTable_values type h]
  | inputObject fields => simp only [TypeBody.toBody, bodyOfNode, inputFieldTable_values type h]

theorem typeOfNode_toNode {d : TypeDefinition} (h : d.body.Keyed) :
    typeOfNode d.toNode = (d, []) := by
  simp only [typeOfNode, TypeDefinition.toNode, bodyOfNode_toBody d.name h]

theorem directiveOfNode_toNode {d : DirectiveDefinition} (h : d.Keyed) :
    directiveOfNode d.toNode = (d, []) := by
  simp only [directiveOfNode, DirectiveDefinition.toNode, argumentTable_values _ h]

theorem addRoots_toList (r : RootOperations) : addRoots .none r.toList = (r, []) := by
  obtain ⟨query, mutation, subscription⟩ := r
  cases query <;> cases mutation <;> cases subscription <;> rfl

/-! ## Documents -/

/-- Whether a document has a `schema` definition. -/
def Sdl.Document.hasNode (x : Document) : Bool :=
  x.definitions.any fun y => match y with
    | .schema _ => true
    | _ => false

namespace Schema

variable {α : Type} {step : Schema → α → Faulty Schema}

theorem collect_append (s : Schema) (l m : List α) :
    collect step s (l ++ m) =
      ((collect step (collect step s l).1 m).1,
        (collect step s l).2 ++ (collect step (collect step s l).1 m).2) := by
  induction l generalizing s with
  | nil => rfl
  | cons a l ih => simp only [List.cons_append, collect, ih, List.append_assoc]

theorem collect_cons (s : Schema) (a : α) (l : List α) :
    collect step s (a :: l) =
      ((collect step (step s a).1 l).1, (step s a).2 ++ (collect step (step s a).1 l).2) :=
  rfl

theorem collect_cons_faults_eq_nil_iff {s : Schema} {a : α} {l : List α} :
    (collect step s (a :: l)).2 = [] ↔
      (step s a).2 = [] ∧ (collect step (step s a).1 l).2 = [] :=
  List.append_eq_nil_iff

theorem collect_eq_self {s : Schema} {l : List α} (h : ∀ a ∈ l, step s a = (s, [])) :
    collect step s l = (s, []) := by
  induction l with
  | nil => rfl
  | cons a l ih =>
    rw [collect, h a List.mem_cons_self]
    simp only [ih fun b hb => h b (List.mem_cons_of_mem a hb), List.append_nil]

/-- Steps that put what a table holds into a schema, each entry under its key, give the schema
with the table. -/
theorem collect_values {β : Type} (put : Table Name β → Schema) (node : β → α) {t : Table Name β}
    (hstep : ∀ t' k b, (k, b) ∈ t.entries → k ∉ t'.keys →
      step (put t') (node b) = (put (t'.insert k b), [])) :
    collect step (put .empty) (t.values.map node) = (put t, []) := by
  rw [Table.values, List.map_map]
  refine Table.fill_induct (t := t) (P := fun t' es =>
    collect step (put t') (es.map fun e => node e.2) = (put t, [])) rfl ?_
  intro t' k b es he hk ih
  rw [List.map_cons, collect, hstep t' k b he hk]
  simp only [ih, List.append_nil]

theorem collect_define_directives (s : Schema) {ds : Table Name DirectiveDefinition}
    (hkeys : ds.Keyed DirectiveDefinition.name) (hds : ∀ d ∈ ds.values, d.Keyed) :
    collect define { s with directiveDefinitions := .empty }
        (ds.values.map fun d => .directive d.toNode)
      = ({ s with directiveDefinitions := ds }, []) := by
  refine collect_values (fun t => { s with directiveDefinitions := t })
    (fun d => Definition.directive d.toNode) fun t k d hd hk => ?_
  have hname : d.name = k := hkeys (k, d) hd
  simp only [define, directiveOfNode_toNode (hds d (Table.mem_values_of_mem hd)), hname,
    Table.contains_eq_false_iff.mpr hk, Bool.false_eq_true, if_false]

theorem collect_define_types (s : Schema) {ds : Table Name TypeDefinition}
    (hkeys : ds.Keyed TypeDefinition.name) (hds : ∀ d ∈ ds.values, d.body.Keyed) :
    collect define { s with types := .empty } (ds.values.map fun d => .type d.toNode)
      = ({ s with types := ds }, []) := by
  refine collect_values (fun t => { s with types := t })
    (fun d => Definition.type d.toNode) fun t k d hd hk => ?_
  have hname : d.name = k := hkeys (k, d) hd
  simp only [define, typeOfNode_toNode (hds d (Table.mem_values_of_mem hd)), hname,
    Table.contains_eq_false_iff.mpr hk, Bool.false_eq_true, if_false]

/-- The entry points that the document of a schema gives. -/
def writtenRoots (s : Schema) : RootOperations := if s.needsNode then s.roots else .none

/-- The `schema` definition, where it is written, gives all that is in no table. -/
theorem collect_define_node (s : Schema) :
    collect define (empty s.name)
        (if s.needsNode then [.schema ⟨s.description, s.directives, s.roots.toList⟩] else [])
      = ({ s with roots := s.writtenRoots, types := .empty, directiveDefinitions := .empty }, []) := by
  unfold writtenRoots
  by_cases h : s.needsNode = true
  · simp only [if_pos h, collect, define, empty, addRoots_toList, List.nil_append]
    cases s.description <;> rfl
  · have hnode : (s.description = none ∧ s.directives = []) ∧ s.roots.isCanonical = true := by
      simpa [needsNode] using h
    simp only [if_neg h, collect, empty, hnode.1.1, hnode.1.2]

theorem addDocument_toDocument {s : Schema} (hs : s.Keyed) :
    (empty s.name).addDocument s.toDocument = ({ s with roots := s.writtenRoots }, []) := by
  have hdefined : collect define (empty s.name) s.toDocument.definitions
      = ({ s with roots := s.writtenRoots }, []) := by
    have hdirectives := collect_define_directives { s with roots := s.writtenRoots, types := .empty }
      hs.directives hs.arguments
    have htypes := collect_define_types { s with roots := s.writtenRoots } hs.types hs.bodies
    simp only [toDocument, collect_append, collect_define_node, hdirectives, htypes,
      List.append_nil]
  have hextended (s' : Schema) : collect extend s' s.toDocument.definitions = (s', []) := by
    refine collect_eq_self fun x hx => ?_
    simp only [toDocument, List.mem_append, List.mem_map] at hx
    rcases hx with (hx | ⟨_, -, rfl⟩) | ⟨_, -, rfl⟩
    · split at hx
      · rw [List.mem_singleton.mp hx]
        rfl
      · cases hx
    · rfl
    · rfl
  simp only [addDocument, hdefined, hextended, List.append_nil]

/-- One document extends a schema to what it adds, or fails with what it meets. -/
theorem extendBy_singleton (s : Schema) (x : Document) :
    s.extendBy [x] = if (s.addDocument x).2.isEmpty then .ok (s.addDocument x).1
      else .error ((s.addDocument x).2.map (⟨s.name, ·⟩)) := by
  simp only [extendBy, collect, List.append_nil]

/-- A document gives what it extends the empty schema to, with the entry points found by their
names unless it has a `schema` definition. -/
theorem ofDocument_eq (name : String) (x : Document) :
    ofDocument name x
      = ((empty name).extendBy [x]).map fun s => if x.hasNode then s else s.inferRoots := by
  rw [ofDocument]
  cases (empty name).extendBy [x] <;> rfl

/-- A document without faults gives its schema, with the entry points found by their names unless
it has a `schema` definition. -/
theorem ofDocument_of_extendBy {name : String} {x : Document} {s : Schema}
    (h : (empty name).extendBy [x] = .ok s) :
    ofDocument name x = .ok (if x.hasNode then s else s.inferRoots) := by
  rw [ofDocument_eq, h]
  rfl

theorem toDocument_hasNode (s : Schema) : s.toDocument.hasNode = s.needsNode := by
  by_cases h : s.needsNode = true <;> simp [Document.hasNode, toDocument, h]

/-- The document of a keyed schema is read without faults. What is read differs from the schema
at most in its entry points. -/
theorem ofDocument_toDocument_eq {s : Schema} (hs : s.Keyed) :
    ofDocument s.name s.toDocument = .ok
      (if s.needsNode then s else { s with roots := .none }.inferRoots) := by
  have hextended : (empty s.name).extendBy [s.toDocument]
      = .ok { s with roots := s.writtenRoots } := by
    simp only [extendBy, collect, addDocument_toDocument hs]
    rfl
  rw [ofDocument_of_extendBy hextended, toDocument_hasNode, writtenRoots]
  by_cases h : s.needsNode = true
  · simp only [if_pos h]
  · simp only [if_neg h]

/-! ## Entry points -/

/-- Whether the schema has the object type that serves an operation by its name. -/
def servesByName (s : Schema) (op : RootOperation) : Bool :=
  (s.type? op.canonicalName).any fun d => d.kind = .object

/-- Whether an entry point is set exactly when there is an object type of its canonical name. -/
def RootByName (s : Schema) (op : RootOperation) : Prop :=
  (s.roots.get op).isSome = s.servesByName op

instance (s : Schema) (op : RootOperation) : Decidable (s.RootByName op) :=
  inferInstanceAs (Decidable ((s.roots.get op).isSome = s.servesByName op))

/-- An entry point that is not set is found by its canonical name. -/
theorem inferRoots_get (s : Schema) (op : RootOperation) :
    s.inferRoots.roots.get op
      = (s.roots.get op).or (if s.servesByName op then some op.canonicalName else none) := by
  suffices h : ∀ (ops : List RootOperation) (r : RootOperations),
      (ops.foldl (fun r o => if (r.get o).isNone && s.servesByName o then
          r.set o (some o.canonicalName) else r) r).get op
        = (r.get op).or
          (if op ∈ ops ∧ s.servesByName op = true then some op.canonicalName else none) by
    have hall : op ∈ RootOperation.all := by cases op <;> decide
    refine (h RootOperation.all s.roots).trans ?_
    simp only [hall, true_and]
  intro ops
  induction ops with
  | nil => simp
  | cons o ops ih =>
    intro r
    rw [List.foldl_cons, ih]
    by_cases ho : op = o
    · subst ho
      cases hr : r.get op <;> cases hserves : s.servesByName op <;> simp [hr]
    · have hget : (if (r.get o).isNone && s.servesByName o then r.set o (some o.canonicalName)
          else r).get op = r.get op := by
        split
        · exact RootOperations.get_set_of_ne r _ ho
        · rfl
      rw [hget]
      simp [ho]

/-- Where the document of a schema has no `schema` definition, an entry point is found again
exactly when it is the one that its name gives. -/
theorem inferRoots_get_eq_iff {s : Schema} (h : s.needsNode = false) (op : RootOperation) :
    { s with roots := .none }.inferRoots.roots.get op = s.roots.get op ↔ s.RootByName op := by
  have hcanonical : s.roots.isCanonical = true := by
    simp only [needsNode, Bool.or_eq_false_iff, Bool.not_eq_false'] at h
    exact h.2
  have hget : { s with roots := .none }.inferRoots.roots.get op
      = if s.servesByName op then some op.canonicalName else none := by
    rw [inferRoots_get]
    cases op <;> rfl
  rw [hget, RootByName]
  cases hop : s.roots.get op with
  | none => simp
  | some n =>
    rw [RootOperations.isCanonical_iff.mp hcanonical op n hop]
    simp

/-- The document of a keyed schema gives the schema back, in every part and every order, exactly
when it has a `schema` definition or the entry points are those that the names give. -/
theorem ofDocument_toDocument {s : Schema} (hs : s.Keyed) :
    ofDocument s.name s.toDocument = .ok s ↔ s.needsNode = true ∨ ∀ op, s.RootByName op := by
  rw [ofDocument_toDocument_eq hs]
  cases h : s.needsNode with
  | true => simp
  | false =>
    simp only [Bool.false_eq_true, if_false, Except.ok.injEq, false_or,
      ← inferRoots_get_eq_iff h]
    constructor
    · intro heq op
      rw [heq]
    · intro hget
      -- the rest of the schema is not looked at
      have hroots := RootOperations.ext_get hget
      show { s with roots := { s with roots := .none }.inferRoots.roots } = s
      rw [hroots]

end Schema

/-- A coast with a type of every kind, a directive, and the entry point that the names give. -/
def coast : Schema :=
  let query := RootOperation.query.canonicalName
  let titled : Name := ⟨"Titled", by decide⟩
  let light : Name := ⟨"Light", by decide⟩
  let signal : Name := ⟨"Signal", by decide⟩
  let side : Name := ⟨"Side", by decide⟩
  let wish : Name := ⟨"Wish", by decide⟩
  let words : Name := ⟨"Words", by decide⟩
  let title : Name := ⟨"title", by decide⟩
  let lights : Name := ⟨"lights", by decide⟩
  let seen : Name := ⟨"seen", by decide⟩
  let sea : Name := ⟨"SEA", by decide⟩
  let seenFrom : InputValue := ⟨seen, some "From where", .named side, some (.enum sea), []⟩
  let shown : Directive := ⟨seen, [(seen, .enum sea)]⟩
  let titles : Table Name Field := .ofList [(title, .ofType title (.nonNullNamed words))]
  let lit : Field := ⟨lights, none, .ofList [(seen, seenFrom)], .nonNullList (.named light), [shown]⟩
  { Schema.empty "coast" with
    roots := ⟨some query, none, none⟩
    types := .ofList [
      (query, ⟨query, none, [], .object (.ofList [titled])
        (.ofList [(title, .ofType title (.nonNullNamed words)), (lights, lit)])⟩),
      (titled, ⟨titled, none, [], .interface .empty titles⟩),
      (light, ⟨light, some "A lighthouse", [shown], .object (.ofList [titled]) titles⟩),
      (signal, ⟨signal, none, [], .union (.ofList [light, query])⟩),
      (side, ⟨side, none, [], .enum (.ofList [(sea, ⟨sea, none, [shown]⟩)])⟩),
      (wish, ⟨wish, none, [], .inputObject (.ofList [(seen, seenFrom)])⟩),
      (words, ⟨words, none, [], .scalar⟩)]
    directiveDefinitions := .ofList [
      (seen, ⟨seen, none, .ofList [(seen, seenFrom)], true, [.object, .fieldDefinition]⟩)] }

theorem ofDocument_toDocument_coast :
    coast.Keyed ∧ coast.needsNode = false ∧
      Schema.ofDocument coast.name coast.toDocument = .ok coast := by
  have hs : coast.Keyed := by decide
  have hroots : ∀ op, coast.RootByName op := by
    intro op
    cases op <;> decide
  exact ⟨hs, by decide, (Schema.ofDocument_toDocument hs).mpr (.inr hroots)⟩

end SchemaWeave
