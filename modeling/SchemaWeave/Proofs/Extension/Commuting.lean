import SchemaWeave.Proofs.Document.RoundTrip
import SchemaWeave.Proofs.Extension.Conservative

/-!
# Steps through documents in another order

The same definitions and `extend` forms can be met in more than one order: as the parts of one
document, or as those of a document and of another one that extends it. Two steps commute in a
schema when either order gives the same schema and the same faults at each of them. What commutes
with every step of a pass commutes with the pass.

A definition and an `extend` form commute as soon as the form finds its type. Only two that both
set entry points do not.
-/

namespace SchemaWeave

open Sdl

/-! ## Steps -/

namespace Schema

/-- Whether two steps can be taken in either order: both give the same schema, and each step meets
the same faults before the other one and after it. -/
structure Commutes (f g : Schema → Faulty Schema) (s : Schema) : Prop where
  schema : (f (g s).1).1 = (g (f s).1).1
  left : (f (g s).1).2 = (f s).2
  right : (g (f s).1).2 = (g s).2

namespace Commutes

variable {α : Type} {f g : Schema → Faulty Schema} {step : Schema → α → Faulty Schema} {s : Schema}

theorem symm (h : Commutes f g s) : Commutes g f s := ⟨h.schema.symm, h.right, h.left⟩

/-- A step that does nothing, before and after another one, commutes with it. -/
theorem of_idle (h : f s = (s, [])) (h' : f (g s).1 = ((g s).1, [])) : Commutes f g s := by
  constructor <;> simp only [h, h']

/-- What commutes with two steps commutes with one after the other. -/
theorem andThen {h : Schema → Faulty Schema} (hg : Commutes f g s) (hh : Commutes f h (g s).1) :
    Commutes f (fun s => ((h (g s).1).1, (g s).2 ++ (h (g s).1).2)) s := by
  refine ⟨?_, hh.left.trans hg.left, ?_⟩
  · show (f (h (g s).1).1).1 = (h (g (f s).1).1).1
    rw [hh.schema, hg.schema]
  · show (g (f s).1).2 ++ (h (g (f s).1).1).2 = (g s).2 ++ (h (g s).1).2
    rw [hg.right, ← hg.schema, hh.right]

/-- A step that commutes with each of several steps commutes with all of them in a row. `P` is what
the steps need, and what they keep. -/
theorem collect {P : Schema → Prop} {l : List α} (hP : ∀ s, ∀ a ∈ l, P s → P (step s a).1)
    (hf : ∀ s, ∀ a ∈ l, P s → Commutes f (step · a) s) (hs : P s) :
    Commutes f (Schema.collect step · l) s := by
  induction l generalizing s with
  | nil => exact ⟨rfl, rfl, rfl⟩
  | cons a l ih =>
    have htail := ih (fun s b hb => hP s b (List.mem_cons_of_mem a hb))
      (fun s b hb => hf s b (List.mem_cons_of_mem a hb)) (hP s a List.mem_cons_self hs)
    exact (hf s a List.mem_cons_self hs).andThen htail

end Commutes

end Schema

/-! ## Definitions -/

/-- Whether a definition is an `extend` form. -/
def Sdl.Definition.isExtension : Definition → Bool
  | .extendSchema _ => true
  | .extendType _ => true
  | _ => false

theorem typeOfNode_kind (node : TypeNode) : (typeOfNode node).1.kind = node.body.kind := by
  obtain ⟨name, description, directives, body⟩ := node
  cases body <;> rfl

namespace Schema

variable {s : Schema}

theorem extend_eq_self {x : Definition} (h : x.isExtension = false) : s.extend x = (s, []) := by
  cases x <;> first | rfl | cases h

theorem define_eq_self {x : Definition} (h : x.isExtension = true) : s.define x = (s, []) := by
  cases x <;> first | rfl | cases h

theorem define_directive_of_mem {node : DirectiveNode} (h : node.name ∈ s.directiveDefinitions.keys) :
    s.define (.directive node) = (s, (directiveOfNode node).2 ++ [.directiveDefined node.name]) :=
  if_pos (Table.contains_iff.mpr h)

theorem define_directive_of_not_mem {node : DirectiveNode}
    (h : node.name ∉ s.directiveDefinitions.keys) :
    s.define (.directive node)
      = ({ s with directiveDefinitions :=
          s.directiveDefinitions.insert node.name (directiveOfNode node).1 },
        (directiveOfNode node).2) :=
  if_neg (by rwa [Table.contains_iff])

theorem define_type_of_mem {node : TypeNode} (h : node.name ∈ s.types.keys) :
    s.define (.type node) = (s, (typeOfNode node).2 ++ [.typeDefined node.name]) :=
  if_pos (Table.contains_iff.mpr h)

theorem define_type_of_not_mem {node : TypeNode} (h : node.name ∉ s.types.keys) :
    s.define (.type node)
      = ({ s with types := s.types.insert node.name (typeOfNode node).1 }, (typeOfNode node).2) :=
  if_neg (by rwa [Table.contains_iff])

theorem not_mem_keys_of_define_directive {node : DirectiveNode}
    (h : (s.define (.directive node)).2 = []) : node.name ∉ s.directiveDefinitions.keys := by
  intro hmem
  rw [define_directive_of_mem hmem] at h
  exact List.append_ne_nil_of_right_ne_nil _ (List.cons_ne_nil _ _) h

theorem not_mem_keys_of_define_type {node : TypeNode} (h : (s.define (.type node)).2 = []) :
    node.name ∉ s.types.keys := by
  intro hmem
  rw [define_type_of_mem hmem] at h
  exact List.append_ne_nil_of_right_ne_nil _ (List.cons_ne_nil _ _) h

/-- Only type definitions change the types. -/
theorem define_types_eq {x : Definition} (hx : ∀ node, x ≠ .type node) :
    (s.define x).1.types = s.types := by
  cases x with
  | type node => exact absurd rfl (hx node)
  | directive node =>
    simp only [define]
    split <;> rfl
  | executable => rfl
  | schema _ => rfl
  | extendSchema _ => rfl
  | extendType _ => rfl

end Schema

/-! ## Types -/

/-- What an `extend` form makes of the type that it names, with the faults that it meets there. -/
def TypeDefinition.extendBy (d : TypeDefinition) (e : TypeExtension) : Faulty TypeDefinition :=
  let (addition, faults) := Addition.ofBody e.name e.body
  if d.kind = e.body.kind then
    let (body, faults') := d.body.add (d.nameInFaults e.name) addition
    ({ d with directives := d.directives ++ e.directives, body := body }, faults ++ faults')
  else (d, faults ++ [.kindDiffers e.name e.body.kind d.kind])

/-- An `extend` form reads its body like a definition, but for the interfaces. -/
theorem ofBody_faults (type : Name) (b : Body) :
    (Addition.ofBody type b).2 = (bodyOfNode type b).2 := by
  cases b <;> rfl

theorem TypeDefinition.extendBy_faults_eq_nil_iff {d : TypeDefinition} {e : TypeExtension} :
    (d.extendBy e).2 = [] ↔ d.kind = e.body.kind ∧ (bodyOfNode e.name e.body).2 = [] ∧
      (d.body.add (d.nameInFaults e.name) (Addition.ofBody e.name e.body).1).2 = [] := by
  unfold extendBy
  simp only [ofBody_faults]
  split
  · next hkind => simp [hkind]
  · next hkind => simp [hkind]

theorem TypeDefinition.extendBy_fst {d : TypeDefinition} {e : TypeExtension}
    (h : d.kind = e.body.kind) :
    (d.extendBy e).1 = { d with
      directives := d.directives ++ e.directives
      body := (d.body.add (d.nameInFaults e.name) (Addition.ofBody e.name e.body).1).1 } := by
  unfold extendBy
  simp only [if_pos h]

/-- A form and its faults call a type by the same name, unless the type is an object or an interface
that is stored under another name. -/
theorem TypeDefinition.nameInFaults_eq_iff {d : TypeDefinition} {key : Name} :
    d.nameInFaults key = key ↔ (d.kind = .object ∨ d.kind = .interface → d.name = key) := by
  obtain ⟨name, description, directives, body⟩ := d
  cases body <;> simp [nameInFaults, kind, TypeBody.kind]

namespace Schema

variable {s : Schema} {e : TypeExtension} {d : TypeDefinition}

/-- An `extend` form that finds its type puts another one in its place. -/
theorem extendType_of_get? (h : s.types.get? e.name = some d) :
    s.extendType e
      = ({ s with types := s.types.insert e.name (d.extendBy e).1 }, (d.extendBy e).2) := by
  unfold extendType TypeDefinition.extendBy
  simp only [h]
  split
  · rfl
  · rw [Table.insert_eq_self h]

/-- An `extend` form without a type changes nothing. -/
theorem extendType_of_not_mem (h : e.name ∉ s.types.keys) :
    s.extendType e = (s, (Addition.ofBody e.name e.body).2 ++ [.typeMissing e.name]) := by
  unfold extendType
  simp only [Table.get?_eq_none_iff.mpr h]

theorem mem_keys_of_extendType (h : (s.extendType e).2 = []) : e.name ∈ s.types.keys := by
  by_contra hnot
  rw [extendType_of_not_mem hnot] at h
  exact List.append_ne_nil_of_right_ne_nil _ (List.cons_ne_nil _ _) h

/-- A definition is added beside a type in the same way whatever the type looks like. -/
theorem define_insert (hd : s.types.get? e.name = some d) (d' : TypeDefinition) (x : Definition) :
    { s with types := s.types.insert e.name d' }.define x
      = ({ (s.define x).1 with types := (s.define x).1.types.insert e.name d' },
        (s.define x).2) := by
  cases x with
  | executable => rfl
  | schema node => rfl
  | extendSchema _ => rfl
  | extendType _ => rfl
  | directive node =>
    simp only [define]
    split <;> rfl
  | type node =>
    have hmem := Table.mem_keys_of_get? hd
    have hkeys : (s.types.insert e.name d').keys = s.types.keys := Table.keys_insert_of_mem d' hmem
    by_cases h : node.name ∈ s.types.keys
    · rw [define_type_of_mem h]
      exact define_type_of_mem (s := { s with types := s.types.insert e.name d' }) (hkeys ▸ h)
    · rw [define_type_of_not_mem h]
      show _ = ({ s with types := (s.types.insert node.name _).insert e.name d' }, _)
      rw [← Table.insert_insert_comm hmem h]
      exact define_type_of_not_mem (s := { s with types := s.types.insert e.name d' }) (hkeys ▸ h)

/-- A definition and an `extend` form that finds its type commute. -/
theorem define_extendType_commutes (h : e.name ∈ s.types.keys) (x : Definition) :
    Commutes (define · x) (extendType · e) s := by
  obtain ⟨d, hd⟩ := Table.exists_get?_of_mem_keys h
  have hextend := extendType_of_get? hd
  have hafter := extendType_of_get? (define_get? hd x)
  have hdefine := define_insert hd (d.extendBy e).1 x
  constructor <;> simp only [hextend, hafter, hdefine]

/-! ## Entry points -/

/-- A definition that is no `schema` definition is added in the same way whatever the entry points
and the directives of the schema are, and leaves them alone. -/
theorem define_setRoots {x : Definition} (hx : ∀ node, x ≠ .schema node) (ds : List Directive)
    (r : RootOperations) :
    { s with directives := ds, roots := r }.define x
      = ({ (s.define x).1 with directives := ds, roots := r }, (s.define x).2) := by
  cases x with
  | schema node => exact absurd rfl (hx node)
  | executable => rfl
  | extendSchema _ => rfl
  | extendType _ => rfl
  | directive node =>
    simp only [define]
    split <;> rfl
  | type node =>
    simp only [define]
    split <;> rfl

theorem define_roots {x : Definition} (hx : ∀ node, x ≠ .schema node) :
    (s.define x).1.directives = s.directives ∧ (s.define x).1.roots = s.roots := by
  have h := define_setRoots (s := s) hx s.directives s.roots
  constructor <;> rw [h]

/-- Whether a definition and an `extend` form set entry points. -/
def BothSetRoots (x y : Definition) : Prop :=
  (∃ node, x = .schema node) ∧ ∃ e, y = .extendSchema e

/-- A definition and an `extend` form commute, unless both set entry points, when the form finds
the type that it names. -/
theorem define_extend_commutes {x y : Definition} (hroots : ¬ BothSetRoots x y)
    (htarget : ∀ e, y = .extendType e → e.name ∈ s.types.keys) :
    Commutes (define · x) (extend · y) s := by
  cases y with
  | extendType e => exact define_extendType_commutes (htarget e rfl) x
  | extendSchema e =>
    have hx (node) : x ≠ .schema node := fun h => hroots ⟨⟨node, h⟩, e, rfl⟩
    obtain ⟨hdirectives, hsame⟩ := define_roots (s := s) hx
    have hextend (s' : Schema) : s'.extend (.extendSchema e)
        = ({ s' with
            directives := s'.directives ++ e.directives
            roots := (addRoots s'.roots e.roots).1 }, (addRoots s'.roots e.roots).2) := rfl
    have hafter := hextend (s.define x).1
    rw [hdirectives, hsame] at hafter
    have hdefine := define_setRoots (s := s) hx (s.directives ++ e.directives)
      (addRoots s.roots e.roots).1
    constructor <;> simp only [hextend s, hafter, hdefine]
  | executable => exact (Commutes.of_idle rfl rfl).symm
  | schema _ => exact (Commutes.of_idle rfl rfl).symm
  | directive _ => exact (Commutes.of_idle rfl rfl).symm
  | type _ => exact (Commutes.of_idle rfl rfl).symm

/-! ## Passes -/

/-- What does nothing at any step need not be collected. -/
theorem collect_filter {α : Type} {step : Schema → α → Faulty Schema} {p : α → Bool}
    (hp : ∀ s a, p a = false → step s a = (s, [])) (s : Schema) (l : List α) :
    collect step s (l.filter p) = collect step s l := by
  induction l generalizing s with
  | nil => rfl
  | cons a l ih =>
    by_cases ha : p a = true
    · rw [List.filter_cons_of_pos ha, collect_cons, collect_cons, ih]
    · rw [List.filter_cons_of_neg ha, ih, collect_cons, hp s a (eq_false_of_ne_true ha)]
      rfl

/-- Whether every `extend` form of a list finds the type that it names. -/
def Targets (s : Schema) (l : List Definition) : Prop :=
  ∀ e, .extendType e ∈ l → e.name ∈ s.types.keys

theorem targets_define {l : List Definition} (h : s.Targets l) (x : Definition) :
    (s.define x).1.Targets l :=
  fun e he => (define_growsTo s x).keys.subset (h e he)

/-- No `extend` form changes which types there are. -/
theorem extend_keys (s : Schema) (x : Definition) : (s.extend x).1.types.keys = s.types.keys := by
  cases x with
  | extendType e =>
    show (s.extendType e).1.types.keys = s.types.keys
    by_cases h : e.name ∈ s.types.keys
    · obtain ⟨d, hd⟩ := Table.exists_get?_of_mem_keys h
      rw [extendType_of_get? hd]
      exact Table.keys_insert_of_mem _ h
    · rw [extendType_of_not_mem h]
  | extendSchema _ => rfl
  | executable => rfl
  | schema _ => rfl
  | directive _ => rfl
  | type _ => rfl

/-- Whether a schema defines a type of a kind. -/
def HasKind (s : Schema) (n : Name) (k : TypeKind) : Prop :=
  ∃ d, s.types.get? n = some d ∧ d.kind = k

/-- No `extend` form changes which kind a type is of. -/
theorem hasKind_extend_iff {n : Name} {k : TypeKind} (x : Definition) :
    (s.extend x).1.HasKind n k ↔ s.HasKind n k := by
  unfold HasKind
  cases hd : s.types.get? n with
  | none =>
    have hnone : (s.extend x).1.types.get? n = none := by
      rw [Table.get?_eq_none_iff, extend_keys, ← Table.get?_eq_none_iff, hd]
    simp [hnone]
  | some d =>
    obtain ⟨d', hd', hgrows⟩ := (extend_growsTo s x).types n d hd
    have hkind : d'.kind = d.kind := hgrows.body.kind_eq
    simp [hd', hkind]

theorem targets_extend_iff {l : List Definition} (x : Definition) :
    (s.extend x).1.Targets l ↔ s.Targets l := by
  rw [Targets, Targets, extend_keys]

/-- Definitions and an `extend` form can be collected in either order, unless one of them and the
form set entry points, when the form finds the type that it names. -/
theorem collect_define_commutes {l : List Definition} {y : Definition}
    (hroots : ∀ x ∈ l, ¬ BothSetRoots x y) (h : s.Targets [y]) :
    Commutes (collect define · l) (extend · y) s := by
  refine (Commutes.collect (P := fun s => s.Targets [y]) (fun s x _ hs => targets_define hs x) ?_
    h).symm
  intro s x hx hs
  exact (define_extend_commutes (hroots x hx) fun e he => hs e (by simp [he])).symm

/-- Definitions and `extend` forms can be collected in either order, unless one of either sets entry
points, when the forms find the types that they name. -/
theorem collect_commutes {l m : List Definition}
    (hroots : ∀ x ∈ l, ∀ y ∈ m, ¬ BothSetRoots x y) (h : s.Targets m) :
    Commutes (collect define · l) (collect extend · m) s := by
  refine .collect (P := fun s => s.Targets m) (fun s y _ hs => (targets_extend_iff y).mpr hs) ?_ h
  intro s y hy hs
  refine collect_define_commutes (fun x hx => hroots x hx y hy) fun e he => hs e ?_
  rwa [List.mem_singleton.mp he]

/-- Forms that are collected without faults find their types. -/
theorem targets_of_collect {l : List Definition} (h : (collect extend s l).2 = []) :
    s.Targets l := by
  induction l generalizing s with
  | nil => exact fun e he => by cases he
  | cons x l ih =>
    obtain ⟨hx, hl⟩ := collect_cons_faults_eq_nil_iff.mp h
    intro e he
    rcases List.mem_cons.mp he with rfl | he
    · exact mem_keys_of_extendType hx
    · exact (targets_extend_iff x).mp (ih hl) e he

end Schema

end SchemaWeave
