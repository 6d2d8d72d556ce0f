import SchemaWeave.Proofs.Document.Written
import SchemaWeave.Proofs.Extension.Commuting

/-!
# Extensions written inline

What an `extend` form adds can be written at the end of the definition that it names. A document
without faults gives the same schema in both forms.

Forms are moved one at a time. The definition that a form names stands somewhere among the others;
with the form inline it puts in its place what the form makes of it later, and the definitions that
come in between commute with the form.
-/

namespace SchemaWeave

open Sdl

/-! ## Documents without `extend` forms -/

namespace Sdl

def TypeNode.extendedBy (node : TypeNode) (e : TypeExtension) : TypeNode :=
  { node with directives := node.directives ++ e.directives, body := node.body.append e.body }

def SchemaNode.extendedBy (node : SchemaNode) (e : SchemaExtension) : SchemaNode :=
  { node with directives := node.directives ++ e.directives, roots := node.roots ++ e.roots }

namespace Definition

/-- The definition with what an `extend` form adds, when it is the one that the form names. -/
def extendedBy : Definition → Definition → Definition
  | .type node, .extendType e =>
    if e.name = node.name then .type (node.extendedBy e) else .type node
  | .schema node, .extendSchema e => .schema (node.extendedBy e)
  | x, _ => x

/-- Whether a definition is the one that an `extend` form names. -/
def owns : Definition → Definition → Bool
  | .type node, .extendType e => e.name = node.name
  | .schema _, .extendSchema _ => true
  | _, _ => false

def isSchema : Definition → Bool
  | .schema _ => true
  | _ => false

/-- The name of the type that a definition defines. -/
def typeName? : Definition → Option Name
  | .type node => some node.name
  | _ => none

theorem extendedBy_eq_self {x y : Definition} (h : x.owns y = false) : x.extendedBy y = x := by
  cases x <;> cases y <;> try rfl
  case type.extendType node e => exact if_neg (of_decide_eq_false h)
  case schema.extendSchema node e => cases h

/-- A form that names none of several definitions changes none. -/
theorem map_extendedBy_eq_self {y : Definition} {l : List Definition}
    (h : ∀ x ∈ l, x.owns y = false) : l.map (·.extendedBy y) = l :=
  (List.map_congr_left fun x hx => extendedBy_eq_self (h x hx)).trans (List.map_id l)

theorem isExtension_of_owns {x y : Definition} (h : x.owns y = true) : y.isExtension = true := by
  cases x <;> cases y <;> first | rfl | cases h

theorem isSchema_extendedBy (x y : Definition) : (x.extendedBy y).isSchema = x.isSchema := by
  cases x <;> cases y <;> try rfl
  case type.extendType node e =>
    show (if e.name = node.name then type (node.extendedBy e) else type node).isSchema = _
    split <;> rfl

theorem isExtension_extendedBy (x y : Definition) :
    (x.extendedBy y).isExtension = x.isExtension := by
  cases x <;> cases y <;> try rfl
  case type.extendType node e =>
    show (if e.name = node.name then type (node.extendedBy e) else type node).isExtension = _
    split <;> rfl

end Definition

/-- The document without its `extend` forms, where every definition has at its end what the forms
that name it add, in the order of the document. -/
def Document.folded (x : Document) : Document :=
  ⟨(x.definitions.filter fun y => !y.isExtension).map fun y =>
    x.definitions.foldl Definition.extendedBy y⟩

end Sdl

/-! ## One definition and one form -/

/-- A type definition with an `extend` form inline gives what the form makes of the type. -/
theorem typeOfNode_extendedBy {node : TypeNode} {e : TypeExtension}
    (hnode : (typeOfNode node).2 = []) (he : ((typeOfNode node).1.extendBy e).2 = []) :
    typeOfNode (node.extendedBy e) = (((typeOfNode node).1.extendBy e).1, []) := by
  obtain ⟨hkind, hbody, hadd⟩ := TypeDefinition.extendBy_faults_eq_nil_iff.mp he
  have hkeyed : (typeOfNode node).1.body.Keyed := bodyOfNode_keyed node.name node.body
  -- what the form makes of the body is written as the two bodies together
  have hwritten := toBody_add hkind hbody hadd
  rw [show (typeOfNode node).1.body.toBody = node.body.interfacesOnce from
    toBody_bodyOfNode hnode] at hwritten
  have hread := bodyOfNode_toBody node.name
    (TypeBody.add_keyed ((typeOfNode node).1.nameInFaults e.name) hkeyed
      (Addition.ofBody_keyed e.name e.body))
  rw [hwritten, bodyOfNode_interfacesOnce_append] at hread
  rw [TypeDefinition.extendBy_fst hkind]
  show ((⟨_, _, _, (bodyOfNode node.name (node.body.append e.body)).1⟩,
    (bodyOfNode node.name (node.body.append e.body)).2) : Faulty TypeDefinition) = _
  rw [hread]
  rfl

theorem addRoots_append (r : RootOperations) (l m : List (RootOperation × Name)) :
    addRoots r (l ++ m) =
      ((addRoots (addRoots r l).1 m).1, (addRoots r l).2 ++ (addRoots (addRoots r l).1 m).2) := by
  induction l generalizing r with
  | nil => rfl
  | cons entry l ih =>
    obtain ⟨op, n⟩ := entry
    cases h : r.get op <;> simp only [List.cons_append, addRoots, h, ih]

namespace Schema

variable {s : Schema} {x y : Definition} {l : List Definition}

/-- A definition with a form inline adds what the definition and then the form make. -/
theorem define_extendedBy (howns : x.owns y = true) (hx : (s.define x).2 = [])
    (hy : ((s.define x).1.extend y).2 = []) :
    s.define (x.extendedBy y) = (((s.define x).1.extend y).1, []) := by
  cases x <;> cases y <;> try cases howns
  case schema.extendSchema node e =>
    have hroots : (addRoots s.roots (node.roots ++ e.roots)).2 = [] := by
      rw [addRoots_append]
      exact List.append_eq_nil_iff.mpr ⟨hx, hy⟩
    show (({ s with
        description := if node.description.isSome then node.description else s.description
        directives := s.directives ++ (node.directives ++ e.directives)
        roots := (addRoots s.roots (node.roots ++ e.roots)).1 },
      (addRoots s.roots (node.roots ++ e.roots)).2) : Faulty Schema) = _
    rw [hroots, addRoots_append, ← List.append_assoc]
    rfl
  case type.extendType node e =>
    have hname : e.name = node.name := of_decide_eq_true howns
    have hnew := not_mem_keys_of_define_type hx
    rw [define_type_of_not_mem hnew] at hx hy ⊢
    -- the form finds the type that has just been defined
    have hget : (s.types.insert node.name (typeOfNode node).1).get? e.name
        = some (typeOfNode node).1 := by
      rw [hname, Table.get?_insert, if_pos rfl]
    have hextend := extendType_of_get?
      (s := { s with types := s.types.insert node.name (typeOfNode node).1 }) hget
    simp only [extend, hextend] at hy ⊢
    have hinline := typeOfNode_extendedBy hx hy
    have hnew' : (node.extendedBy e).name ∉ s.types.keys := hnew
    rw [show (Definition.type node).extendedBy (.extendType e) = .type (node.extendedBy e) from
      if_pos hname, define_type_of_not_mem hnew', hinline, hname, Table.insert_insert]
    rfl

/-! ## All definitions and one form -/

theorem not_bothSetRoots_of_owns_eq_false (h : x.owns y = false) : ¬ BothSetRoots x y := by
  rintro ⟨⟨node, rfl⟩, e, rfl⟩
  cases h

theorem targets_of_owns (howns : x.owns y = true) (hx : (s.define x).2 = []) :
    (s.define x).1.Targets [y] := by
  intro e he
  obtain rfl := List.mem_singleton.mp he
  cases x <;> try cases howns
  case type node =>
    have hname : e.name = node.name := of_decide_eq_true howns
    rw [define_type_of_not_mem (not_mem_keys_of_define_type hx), hname]
    exact Table.mem_keys_insert.mpr (.inr rfl)

/-- Where one definition owns a form, the definitions with the form inline add what the definitions
and then the form make. -/
theorem collect_define_extendedBy (howner : l.countP (·.owns y) = 1)
    (hl : (collect define s l).2 = []) (hy : ((collect define s l).1.extend y).2 = []) :
    collect define s (l.map (·.extendedBy y)) = (((collect define s l).1.extend y).1, []) := by
  induction l generalizing s with
  | nil => cases howner
  | cons x l ih =>
    obtain ⟨hx, hl⟩ := collect_cons_faults_eq_nil_iff.mp hl
    rw [List.map_cons]
    by_cases howns : x.owns y = true
    · -- the form moves before the definitions that follow, which it does not name
      rw [List.countP_cons, if_pos howns] at howner
      have hothers (z) (hz : z ∈ l) : z.owns y = false := by
        simpa using List.countP_eq_zero.mp (Nat.succ.inj howner) z hz
      have hcommutes := collect_define_commutes (l := l) (y := y)
        (fun z hz => not_bothSetRoots_of_owns_eq_false (hothers z hz)) (targets_of_owns howns hx)
      rw [Definition.map_extendedBy_eq_self hothers, collect,
        define_extendedBy howns hx (hcommutes.right.symm.trans hy)]
      exact Prod.ext hcommutes.schema (hcommutes.left.trans hl)
    · have hself := Definition.extendedBy_eq_self (eq_false_of_ne_true howns)
      rw [List.countP_cons, if_neg howns] at howner
      rw [hself, collect_cons, hx, ih howner hl hy]
      rfl

/-! ## Forms have one owner -/

/-- Definitions that are collected without faults add their types in their order. -/
theorem collect_define_keys (h : (collect define s l).2 = []) :
    (collect define s l).1.types.keys = s.types.keys ++ l.filterMap Definition.typeName? := by
  induction l generalizing s with
  | nil => simp [collect]
  | cons x l ih =>
    obtain ⟨hx, hl⟩ := collect_cons_faults_eq_nil_iff.mp h
    refine (ih hl).trans ?_
    cases x with
    | type node =>
      rw [define_type_of_not_mem (not_mem_keys_of_define_type hx),
        Table.keys_insert_of_not_mem _ (not_mem_keys_of_define_type hx), List.append_assoc]
      rfl
    | directive node =>
      rw [define_types_eq (fun _ => by simp)]
      rfl
    | executable => rfl
    | schema _ => rfl
    | extendSchema _ => rfl
    | extendType _ => rfl

/-- In a document without faults an `extend` form of a type has one owner. -/
theorem countP_owns_extendType {e : TypeExtension} (hs : s.types.keys = [])
    (hl : (collect define s l).2 = [])
    (he : ((collect define s l).1.extend (.extendType e)).2 = []) :
    l.countP (·.owns (.extendType e)) = 1 := by
  have hkeys : (collect define s l).1.types.keys = l.filterMap Definition.typeName? := by
    rw [collect_define_keys hl, hs, List.nil_append]
  have hmem := mem_keys_of_extendType he
  have hnodup := (collect define s l).1.types.keys_nodup
  rw [hkeys] at hmem hnodup
  rw [← List.count_eq_one_of_mem hnodup hmem, List.count, List.countP_filterMap]
  refine List.countP_congr fun x _ => ?_
  cases x <;> simp [Definition.owns, Definition.typeName?, eq_comm (a := e.name)]

theorem countP_owns_extendSchema (e : SchemaExtension) (l : List Definition) :
    l.countP (·.owns (.extendSchema e)) = l.countP Definition.isSchema := by
  refine List.countP_congr fun x _ => ?_
  cases x <;> simp [Definition.owns, Definition.isSchema]

/-- In a document without faults every `extend` form has one owner, as long as there is one `schema`
definition for those of the schema. -/
theorem countP_owns (hs : s.types.keys = [])
    (hnode : ∀ e, y = .extendSchema e → l.countP Definition.isSchema = 1)
    (hl : (collect define s l).2 = []) (hy : ((collect define s l).1.extend y).2 = [])
    (hform : y.isExtension = true) : l.countP (·.owns y) = 1 := by
  cases y with
  | extendType e => exact countP_owns_extendType hs hl hy
  | extendSchema e => exact (countP_owns_extendSchema e l).trans (hnode e rfl)
  | executable => cases hform
  | schema _ => cases hform
  | directive _ => cases hform
  | type _ => cases hform

/-! ## All definitions and all forms -/

/-- The definitions with all forms inline add what the definitions and then the forms make. -/
theorem collect_define_foldl_extendedBy {m : List Definition} (hs : s.types.keys = [])
    (hnode : ∀ e, .extendSchema e ∈ m → l.countP Definition.isSchema = 1)
    (hl : (collect define s l).2 = [])
    (hm : (collect extend (collect define s l).1 m).2 = []) :
    collect define s (l.map fun x => m.foldl Definition.extendedBy x)
      = ((collect extend (collect define s l).1 m).1, []) := by
  induction m generalizing l with
  | nil => exact Prod.ext (by simp [collect]) (by simpa using hl)
  | cons y m ih =>
    obtain ⟨hy, hm⟩ := collect_cons_faults_eq_nil_iff.mp hm
    -- the first form moves into the definitions, and the others are those of what comes of it
    have hfirst : collect define s (l.map (·.extendedBy y))
        = (((collect define s l).1.extend y).1, []) := by
      by_cases hform : y.isExtension = true
      · refine collect_define_extendedBy (countP_owns hs (fun e he => ?_) hl hy hform) hl hy
        exact hnode e (he ▸ List.mem_cons_self)
      · have hform := eq_false_of_ne_true hform
        have howner (x) (_ : x ∈ l) : x.owns y = false :=
          eq_false_of_ne_true fun h => by simp [Definition.isExtension_of_owns h] at hform
        rw [Definition.map_extendedBy_eq_self howner, extend_eq_self hform]
        exact Prod.ext rfl hl
    have hcount : (l.map (·.extendedBy y)).countP Definition.isSchema
        = l.countP Definition.isSchema := by
      rw [List.countP_map]
      exact List.countP_congr fun x _ => by
        simp only [Function.comp_apply, Definition.isSchema_extendedBy]
    have hrest := ih (l := l.map (·.extendedBy y))
      (fun e he => hcount.trans (hnode e (List.mem_cons_of_mem y he))) (by rw [hfirst])
      (by rw [hfirst]; exact hm)
    rw [hfirst, List.map_map] at hrest
    exact hrest

end Schema

/-! ## Documents -/

namespace Sdl

theorem Definition.isExtension_foldl_extendedBy (x : Definition) (l : List Definition) :
    (l.foldl extendedBy x).isExtension = x.isExtension := by
  induction l generalizing x with
  | nil => rfl
  | cons y l ih => exact (ih _).trans (isExtension_extendedBy x y)

theorem Definition.isSchema_foldl_extendedBy (x : Definition) (l : List Definition) :
    (l.foldl extendedBy x).isSchema = x.isSchema := by
  induction l generalizing x with
  | nil => rfl
  | cons y l ih => exact (ih _).trans (isSchema_extendedBy x y)

theorem Document.hasNode_eq (x : Document) : x.hasNode = x.definitions.any Definition.isSchema := by
  refine List.any_congr rfl fun y => ?_
  cases y <;> rfl

theorem Document.hasNode_folded (x : Document) : x.folded.hasNode = x.hasNode := by
  rw [hasNode_eq, hasNode_eq, folded, List.any_map, List.any_filter]
  refine List.any_congr rfl fun y => ?_
  rw [Function.comp_apply, Definition.isSchema_foldl_extendedBy]
  cases y <;> rfl

end Sdl

namespace Schema

variable {s : Schema} {x : Document}

/-- A document with the forms inline adds what the document adds. -/
theorem addDocument_folded (hs : s.types.keys = [])
    (hnode : ∀ e, .extendSchema e ∈ x.definitions → x.definitions.countP Definition.isSchema = 1)
    (hx : (s.addDocument x).2 = []) : s.addDocument x.folded = s.addDocument x := by
  obtain ⟨hdefined, hextended⟩ := List.append_eq_nil_iff.mp hx
  have hdefine : collect define s (x.definitions.filter fun y => !y.isExtension)
      = collect define s x.definitions :=
    collect_filter (fun s y hy => define_eq_self (by simpa using hy)) s x.definitions
  have hcount : (x.definitions.filter fun y => !y.isExtension).countP Definition.isSchema
      = x.definitions.countP Definition.isSchema := by
    rw [List.countP_filter]
    refine List.countP_congr fun y _ => ?_
    cases y <;> simp [Definition.isSchema, Definition.isExtension]
  have hinline : collect define s x.folded.definitions = ((s.addDocument x).1, []) := by
    rw [← hdefine] at hdefined hextended
    refine (collect_define_foldl_extendedBy hs (fun e he => hcount.trans (hnode e he)) hdefined
      hextended).trans ?_
    rw [hdefine]
    rfl
  have hextend : collect extend (s.addDocument x).1 x.folded.definitions
      = ((s.addDocument x).1, []) := by
    refine collect_eq_self fun y hy => extend_eq_self ?_
    obtain ⟨z, hz, rfl⟩ := List.mem_map.mp hy
    simpa [Definition.isExtension_foldl_extendedBy] using (List.mem_filter.mp hz).2
  rw [addDocument]
  simp only [hinline, hextend, List.append_nil]
  exact Prod.ext rfl hx.symm

/-- A document that is accepted, with at most one `schema` definition and one where it extends the
schema, gives the same schema in every part and every order with its `extend` forms inline. -/
theorem ofDocument_folded {name : String} (h : ofDocument name x = .ok s)
    (hone : x.definitions.countP Definition.isSchema ≤ 1)
    (hnode : ∀ e, .extendSchema e ∈ x.definitions → x.hasNode = true) :
    ofDocument name x.folded = .ok s := by
  obtain ⟨s₀, hs₀, -⟩ := map_eq_ok_iff.mp ((ofDocument_eq name x).symm.trans h)
  have hfaults := (extendBy_eq_ok hs₀).2
  simp only [collect, List.append_nil] at hfaults
  have hone' (e) (he : .extendSchema e ∈ x.definitions) :
      x.definitions.countP Definition.isSchema = 1 := by
    have hany := hnode e he
    rw [Document.hasNode_eq, List.any_eq_true] at hany
    exact Nat.le_antisymm hone (List.countP_pos_iff.mpr hany)
  rw [← h, ofDocument_eq, ofDocument_eq, extendBy_singleton, extendBy_singleton,
    addDocument_folded rfl hone' hfaults, Document.hasNode_folded]

end Schema

/-- A canal whose `extend` forms stand before, between and after what they extend. -/
def canalDocument : Document :=
  let canal : Name := ⟨"Canal", by decide⟩
  let lock : Name := ⟨"Lock", by decide⟩
  let node (field : Name) : FieldNode := ⟨field, none, [], .named lock, []⟩
  ⟨[.extendType ⟨canal, [], .object [⟨"Waterway", by decide⟩] [node ⟨"lower", by decide⟩]⟩,
    .schema ⟨none, [], [(.query, canal)]⟩,
    .type ⟨canal, none, [], .object [] [node ⟨"upper", by decide⟩]⟩,
    .extendSchema ⟨[⟨⟨"dug", by decide⟩, []⟩], [(.mutation, canal)]⟩,
    .extendType ⟨lock, [], .enum [⟨⟨"SHUT", by decide⟩, none, []⟩]⟩,
    .type ⟨lock, none, [], .enum [⟨⟨"OPEN", by decide⟩, none, []⟩]⟩,
    .extendType ⟨canal, [⟨⟨"dug", by decide⟩, []⟩], .object [⟨"Boundary", by decide⟩] []⟩]⟩

/-- The canal without `extend` forms. -/
def canalInline : Document :=
  let canal : Name := ⟨"Canal", by decide⟩
  let lock : Name := ⟨"Lock", by decide⟩
  let node (field : Name) : FieldNode := ⟨field, none, [], .named lock, []⟩
  let dug : Directive := ⟨⟨"dug", by decide⟩, []⟩
  ⟨[.schema ⟨none, [dug], [(.query, canal), (.mutation, canal)]⟩,
    .type ⟨canal, none, [dug], .object [⟨"Waterway", by decide⟩, ⟨"Boundary", by decide⟩]
      [node ⟨"upper", by decide⟩, node ⟨"lower", by decide⟩]⟩,
    .type ⟨lock, none, [], .enum [⟨⟨"OPEN", by decide⟩, none, []⟩, ⟨⟨"SHUT", by decide⟩, none, []⟩]⟩]⟩

theorem ofDocument_folded_canal :
    canalDocument.folded = canalInline ∧
      ∃ s, Schema.ofDocument "canal" canalDocument = .ok s ∧
        Schema.ofDocument "canal" canalDocument.folded = .ok s := by
  have hread : Schema.ofDocument "canal" canalDocument = .ok _ := rfl
  have hone : canalDocument.definitions.countP Definition.isSchema ≤ 1 := by decide
  have hnode : canalDocument.hasNode = true := by decide
  exact ⟨by decide, _, hread, Schema.ofDocument_folded hread hone fun _ _ => hnode⟩

end SchemaWeave
