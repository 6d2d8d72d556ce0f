import SchemaWeave.Proofs.Extension.Commuting
import SchemaWeave.Proofs.Results

/-!
# A document that continues another one

To read a document and to extend what it gives by a second one is to read both as one document.
The one document has all definitions first, where the two have the `extend` forms of the first
before the definitions of the second. The steps commute, so the schema and the faults are the same.

Entry points are found by their canonical names after the last step of the one document and after
the first of the two. It is the same as long as the second document leaves them alone.
-/

namespace SchemaWeave

open Sdl

/-! ## Documents that leave entry points alone -/

/-- Whether a definition neither says which types are entry points nor gives an object type that is
one by its name. -/
def Sdl.Definition.leavesRoots : Definition → Bool
  | .schema _ => false
  | .extendSchema _ => false
  | .type node => node.body.kind ≠ .object || RootOperation.all.all (node.name ≠ ·.canonicalName)
  | _ => true

def Sdl.Document.leavesRoots (x : Document) : Bool := x.definitions.all Definition.leavesRoots

/-- The document with the definitions of another one after its own. -/
def Sdl.Document.followedBy (b x : Document) : Document := ⟨b.definitions ++ x.definitions⟩

theorem Sdl.Definition.ne_schema_of_leavesRoots {x : Definition} (h : x.leavesRoots = true) :
    ∀ node, x ≠ .schema node := by
  rintro node rfl
  cases h

theorem Sdl.Definition.kind_ne_object_of_leavesRoots {node : TypeNode} {op : RootOperation}
    (h : (Definition.type node).leavesRoots = true) (hop : op.canonicalName = node.name) :
    node.body.kind ≠ .object := by
  intro hkind
  have hall : op ∈ RootOperation.all := by cases op <;> decide
  simp only [leavesRoots, hkind, ne_eq, not_true_eq_false, decide_false, Bool.false_or,
    List.all_eq_true] at h
  exact absurd hop.symm (of_decide_eq_true (h op hall))

namespace Schema

variable {s s' : Schema} {x : Definition} {op : RootOperation}

/-! ## Object types with canonical names -/

theorem servesByName_iff : s.servesByName op = true ↔ s.HasKind op.canonicalName .object := by
  rw [servesByName, type?, Option.any_eq_true]
  simp only [decide_eq_true_eq]
  rfl

theorem servesByName_congr (h : s'.types.get? op.canonicalName = s.types.get? op.canonicalName) :
    s'.servesByName op = s.servesByName op := by
  rw [servesByName, type?, h]
  rfl

theorem servesByName_define (hx : x.leavesRoots = true) :
    (s.define x).1.servesByName op = s.servesByName op := by
  cases x with
  | schema _ => rfl
  | executable => rfl
  | extendSchema _ => rfl
  | extendType _ => rfl
  | directive node =>
    by_cases h : node.name ∈ s.directiveDefinitions.keys
    · rw [define_directive_of_mem h]
    · rw [define_directive_of_not_mem h]
      rfl
  | type node =>
    by_cases h : node.name ∈ s.types.keys
    · rw [define_type_of_mem h]
    · rw [define_type_of_not_mem h]
      by_cases hop : op.canonicalName = node.name
      · -- the new type is no object type, and before it there was none of the name
        have hkind := Definition.kind_ne_object_of_leavesRoots hx hop
        rw [← typeOfNode_kind] at hkind
        have hnone := Table.get?_eq_none_iff.mpr h
        simp [servesByName, type?, hop, Table.get?_insert, hnone, hkind]
      · refine servesByName_congr ?_
        rw [Table.get?_insert, if_neg hop]

theorem servesByName_extend (x : Definition) :
    (s.extend x).1.servesByName op = s.servesByName op :=
  Bool.eq_iff_iff.mpr
    (servesByName_iff.trans ((hasKind_extend_iff x).trans servesByName_iff.symm))

/-! ## Entry points that are found by their names -/

/-- Which entry points are found is decided by those that are set and by the object types. -/
theorem inferRoots_eq (hroots : s'.roots = s.roots)
    (h : ∀ op, s'.servesByName op = s.servesByName op) :
    s'.inferRoots = { s' with roots := s.inferRoots.roots } := by
  have hsame : s'.inferRoots.roots = s.inferRoots.roots := RootOperations.ext_get fun op => by
    rw [inferRoots_get, inferRoots_get, hroots, h op]
  rw [← hsame]
  rfl

/-- Entry points can be found before or after a definition that leaves them alone. -/
theorem inferRoots_define_commutes (hx : x.leavesRoots = true) :
    Commutes (fun s => (s.inferRoots, [])) (define · x) s := by
  have hne := Definition.ne_schema_of_leavesRoots hx
  obtain ⟨hdirectives, hroots⟩ := define_roots (s := s) hne
  have hbefore : s.inferRoots.define x
      = ({ (s.define x).1 with roots := s.inferRoots.roots }, (s.define x).2) := by
    refine (define_setRoots hne s.directives s.inferRoots.roots).trans ?_
    rw [← hdirectives]
  have hafter := inferRoots_eq hroots fun _ => servesByName_define (s := s) hx
  constructor <;> simp only [hbefore, hafter]

/-- Entry points can be found before or after an `extend` form that leaves them alone. -/
theorem inferRoots_extend_commutes (hx : x.leavesRoots = true) :
    Commutes (fun s => (s.inferRoots, [])) (extend · x) s := by
  cases x with
  | extendType e =>
    have hbefore : s.inferRoots.extendType e
        = ({ (s.extendType e).1 with roots := s.inferRoots.roots }, (s.extendType e).2) := by
      cases hd : s.types.get? e.name with
      | none =>
        have hnot := Table.get?_eq_none_iff.mp hd
        rw [extendType_of_not_mem hnot]
        exact extendType_of_not_mem (s := s.inferRoots) hnot
      | some d =>
        rw [extendType_of_get? hd]
        exact extendType_of_get? (s := s.inferRoots) hd
    have hroots : (s.extendType e).1.roots = s.roots := by
      cases hd : s.types.get? e.name with
      | none => rw [extendType_of_not_mem (Table.get?_eq_none_iff.mp hd)]
      | some d => rw [extendType_of_get? hd]
    have hafter : (s.extendType e).1.inferRoots
        = { (s.extendType e).1 with roots := s.inferRoots.roots } :=
      inferRoots_eq hroots fun op => servesByName_extend (.extendType e)
    constructor <;> simp only [extend, hbefore, hafter]
  | extendSchema e => cases hx
  | executable => exact (Commutes.of_idle rfl rfl).symm
  | schema _ => exact (Commutes.of_idle rfl rfl).symm
  | directive _ => exact (Commutes.of_idle rfl rfl).symm
  | type _ => exact (Commutes.of_idle rfl rfl).symm

/-- Entry points can be found before or after a document that leaves them alone. -/
theorem inferRoots_addDocument_commutes {x : Document} (hx : x.leavesRoots = true) :
    Commutes (fun s => (s.inferRoots, [])) (addDocument · x) s := by
  have hall := List.all_eq_true.mp hx
  refine Commutes.andThen (g := (collect define · x.definitions))
    (h := (collect extend · x.definitions)) ?_ ?_
  · exact .collect (P := fun _ => True) (fun _ _ _ _ => trivial)
      (fun _ y hy _ => inferRoots_define_commutes (hall y hy)) trivial
  · exact .collect (P := fun _ => True) (fun _ _ _ _ => trivial)
      (fun _ y hy _ => inferRoots_extend_commutes (hall y hy)) trivial

/-! ## Two documents as one -/

/-- A document without faults and another one that has no `schema` definition can be added one
after the other or as one document. -/
theorem addDocument_followedBy {b x : Document} (hb : (s.addDocument b).2 = [])
    (hx : ∀ node, .schema node ∉ x.definitions) :
    s.addDocument (b.followedBy x) = (s.addDocument b).1.addDocument x := by
  obtain ⟨hdefined, hextended⟩ := List.append_eq_nil_iff.mp hb
  -- the forms of the first document and the definitions of the second change places
  have hcommutes : Commutes (collect define · x.definitions) (collect extend · b.definitions)
      (collect define s b.definitions).1 := by
    refine collect_commutes ?_ (targets_of_collect hextended)
    rintro y hy z - ⟨⟨node, rfl⟩, -⟩
    exact hx node hy
  simp only [addDocument, Document.followedBy, collect_append, hdefined, List.nil_append]
  rw [← hcommutes.schema, hcommutes.right, hextended, ← hcommutes.left, List.nil_append]

theorem hasNode_followedBy {b x : Document} (hx : ∀ node, .schema node ∉ x.definitions) :
    (b.followedBy x).hasNode = b.hasNode := by
  have hnone : x.hasNode = false := by
    rw [Document.hasNode, List.any_eq_false]
    rintro (_ | node | _ | _ | _ | _) hy
    case schema => exact absurd hy (hx node)
    all_goals exact Bool.false_ne_true
  show (b.definitions ++ x.definitions).any _ = b.hasNode
  rw [List.any_append]
  exact (congrArg (b.hasNode || ·) hnone).trans (Bool.or_false _)

/-- A document that leaves entry points alone extends what another one gives exactly as if its
definitions stood in that one, after the others: the schema is the same in every part and every
order, and so are the faults. -/
theorem extendBy_ofDocument {name : String} {b x : Document} (h : ofDocument name b = .ok s)
    (hx : x.leavesRoots = true) : s.extendBy [x] = ofDocument name (b.followedBy x) := by
  have hnode (node) : .schema node ∉ x.definitions := fun hy =>
    Definition.ne_schema_of_leavesRoots (List.all_eq_true.mp hx _ hy) node rfl
  have hname : s.name = name := ofDocument_name h
  rw [ofDocument_eq, map_eq_ok_iff] at h
  obtain ⟨s₀, hs₀, rfl⟩ := h
  obtain ⟨hb, hfaults⟩ := extendBy_eq_ok hs₀
  simp only [collect, List.append_nil] at hb hfaults
  have hboth : (empty name).addDocument (b.followedBy x) = s₀.addDocument x := by
    rw [addDocument_followedBy hfaults hnode, hb]
  have hroots := inferRoots_addDocument_commutes (s := s₀) hx
  rw [ofDocument_eq, extendBy_singleton, extendBy_singleton, hboth, hname, hasNode_followedBy hnode]
  cases b.hasNode with
  | true =>
    simp only [if_true]
    split <;> rfl
  | false =>
    simp only [Bool.false_eq_true, if_false, hroots.right, ← hroots.schema]
    split <;> rfl

end Schema

/-- A mill that is extended before it is defined, with the grain that it grinds. -/
def millDocument : Document :=
  let mill : Name := ⟨"Mill", by decide⟩
  let grain : Name := ⟨"Grain", by decide⟩
  let node (field : Name) (type : Name) : FieldNode := ⟨field, none, [], .named type, []⟩
  ⟨[.extendType ⟨mill, [], .object [] [node ⟨"grinds", by decide⟩ grain]⟩,
    .type ⟨mill, none, [], .object [] [node ⟨"turns", by decide⟩ ⟨"Wheel", by decide⟩]⟩,
    .type ⟨grain, none, [], .enum [⟨⟨"RYE", by decide⟩, none, []⟩]⟩]⟩

/-- A second document for the mill: the grain again, a new loft, and `extend` forms with a field
that is there, of another kind and without a type. -/
def millExtension : Document :=
  let mill : Name := ⟨"Mill", by decide⟩
  let grain : Name := ⟨"Grain", by decide⟩
  ⟨[.extendType ⟨mill, [], .object [] [⟨⟨"grinds", by decide⟩, none, [], .named grain, []⟩]⟩,
    .type ⟨grain, none, [], .scalar⟩,
    .type ⟨⟨"Loft", by decide⟩, none, [], .scalar⟩,
    .extendType ⟨grain, [], .union [mill]⟩,
    .extendType ⟨⟨"Wheel", by decide⟩, [], .scalar⟩]⟩

/-- The mill is extended with the faults, in their order, of the one document. -/
theorem extendBy_ofDocument_mill :
    let grain : Name := ⟨"Grain", by decide⟩
    ∃ s, Schema.ofDocument "mill" millDocument = .ok s ∧ millExtension.leavesRoots = true ∧
      s.extendBy [millExtension] = Schema.ofDocument "mill" (millDocument.followedBy millExtension) ∧
      s.extendBy [millExtension] = .error ([.typeDefined grain,
        .fieldDefined ⟨"Mill", by decide⟩ ⟨"grinds", by decide⟩, .kindDiffers grain .union .enum,
        .typeMissing ⟨"Wheel", by decide⟩].map (⟨"mill", ·⟩)) := by
  have hread : Schema.ofDocument "mill" millDocument = .ok _ := rfl
  have hleaves : millExtension.leavesRoots = true := by decide
  exact ⟨_, hread, hleaves, Schema.extendBy_ofDocument hread hleaves, by decide⟩

end SchemaWeave
