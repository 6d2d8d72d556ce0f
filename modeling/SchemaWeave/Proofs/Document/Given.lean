import SchemaWeave.Proofs.Document.Written

/-!
# What documents give

A document gives types and directives, with fields, arguments, enum values, members and interfaces
inside them, and entry points. Definitions and `extend` forms give parts alike. The body of a
definition is read without faults exactly when it gives every part once, but for its interfaces,
which may be repeated; and a form adds to a type without faults exactly when both together give
every part once.
-/

namespace SchemaWeave

open Sdl

/-! ## Parts -/

/-- A part that a document may give once. -/
inductive Given where
  | type (type : Name)
  | directive (directive : Name)
  | field (type field : Name)
  | argument (owner : ArgumentOwner) (argument : Name)
  | enumValue (type value : Name)
  | member (type member : Name)
  | interface (type interface : Name)
  | root (operation : RootOperation)
deriving DecidableEq

def ArgumentOwner.given (owner : ArgumentOwner) (args : List InputValue) : List Given :=
  (args.map InputValue.name).map (.argument owner)

namespace Sdl

def FieldNode.given (type : Name) (f : FieldNode) : List Given :=
  .field type f.name :: ArgumentOwner.given (.field type f.name) f.arguments

/-- The parts that a body gives to a type. -/
def Body.given (type : Name) : Body → List Given
  | scalar => []
  | object interfaces fields =>
    interfaces.map (Given.interface type) ++ fields.flatMap (FieldNode.given type)
  | interface interfaces fields =>
    interfaces.map (Given.interface type) ++ fields.flatMap (FieldNode.given type)
  | union members => members.map (.member type)
  | enum values => (values.map EnumValue.name).map (.enumValue type)
  | inputObject fields => (fields.map InputValue.name).map (.field type)

def Definition.given : Definition → List Given
  | executable => []
  | schema node => (node.roots.map Prod.fst).map .root
  | directive node =>
    .directive node.name :: ArgumentOwner.given (.directive node.name) node.arguments
  | type node => .type node.name :: node.body.given node.name
  | extendSchema e => (e.roots.map Prod.fst).map .root
  | extendType e => e.body.given e.name

def Document.given (x : Document) : List Given := x.definitions.flatMap Definition.given

/-- Whether a document defines the types that it extends, in their kinds, and gives every part
once. -/
structure Document.GivesOnce (x : Document) : Prop where
  notExecutable : .executable ∉ x.definitions
  targets : ∀ e, .extendType e ∈ x.definitions →
    ∃ node, .type node ∈ x.definitions ∧ node.name = e.name ∧ node.body.kind = e.body.kind
  once : x.given.Nodup

/-- The definition with the first mention of every interface. An `extend` form stays as it is. -/
def Definition.interfacesOnce : Definition → Definition
  | type node => type { node with body := node.body.interfacesOnce }
  | x => x

def Document.interfacesOnce (x : Document) : Document :=
  ⟨x.definitions.map Definition.interfacesOnce⟩

end Sdl

/-! ## Bodies -/

theorem nodup_given_arguments_iff {owner : ArgumentOwner} {args : List InputValue} :
    (owner.given args).Nodup ↔ (argumentTable owner args).2 = [] := by
  rw [argumentTable_faults_eq_nil_iff]
  exact List.nodup_map_iff fun a b h => by injection h

theorem mem_given_field {type : Name} {f : FieldNode} {g : Given} (h : g ∈ f.given type) :
    g = .field type f.name ∨ ∃ a, g = .argument (.field type f.name) a := by
  rcases List.mem_cons.mp h with h | h
  · exact .inl h
  · obtain ⟨a, -, ha⟩ := List.mem_map.mp h
    exact .inr ⟨a, ha.symm⟩

theorem nodup_given_fields_iff {type : Name} {fields : List FieldNode} :
    (fields.flatMap (FieldNode.given type)).Nodup ↔ (fieldTable type fields).2 = [] := by
  have hfield (f : FieldNode) : (f.given type).Nodup ↔ (fieldOfNode type f).2 = [] := by
    refine List.nodup_cons.trans ((and_iff_right ?_).trans nodup_given_arguments_iff)
    simp [ArgumentOwner.given]
  have hdisjoint (f g : FieldNode) : (f.given type).Disjoint (g.given type) ↔ f.name ≠ g.name := by
    constructor
    · intro h hname
      exact h List.mem_cons_self (hname ▸ List.mem_cons_self)
    · intro hne x hf hg
      have hname : f.name = g.name := by
        rcases mem_given_field hf with rfl | ⟨a, rfl⟩ <;>
          rcases mem_given_field hg with h | ⟨b, h⟩ <;> simp at h <;> simp [h]
      exact hne hname
  rw [fieldTable, addEntries_faults_eq_nil_iff, List.nodup_flatMap, and_comm]
  refine and_congr ?_ (forall₂_congr fun f _ => hfield f)
  show _ ↔ (fields.map FieldNode.name).Nodup
  rw [List.Nodup, List.pairwise_map]
  exact List.Pairwise.iff hdisjoint

theorem nodup_given_interfaces_iff {type : Name} {is : List Name} {fields : List FieldNode} :
    (is.map (Given.interface type) ++ fields.flatMap (FieldNode.given type)).Nodup ↔
      is.Nodup ∧ (fieldTable type fields).2 = [] := by
  have hdisjoint : (is.map (Given.interface type)).Disjoint (fields.flatMap (FieldNode.given type)) := by
    intro g hi hf
    obtain ⟨i, -, rfl⟩ := List.mem_map.mp hi
    obtain ⟨f, -, hf⟩ := List.mem_flatMap.mp hf
    rcases mem_given_field hf with h | ⟨a, h⟩ <;> cases h
  rw [List.nodup_append', nodup_given_fields_iff, and_iff_left hdisjoint,
    List.nodup_map_iff fun a b h => by injection h]

/-- A body gives every part once exactly when it is read without faults and no interface is
repeated. -/
theorem Sdl.Body.nodup_given_iff {type : Name} {b : Body} :
    (b.given type).Nodup ↔ b.interfaces.Nodup ∧ (bodyOfNode type b).2 = [] := by
  cases b with
  | scalar => simp [given, interfaces, bodyOfNode]
  | object is fields => exact nodup_given_interfaces_iff
  | interface is fields => exact nodup_given_interfaces_iff
  | union members =>
    refine (List.nodup_map_iff fun a b h => by injection h).trans ?_
    simp [interfaces, bodyOfNode, memberSet_faults_eq_nil_iff]
  | enum values =>
    refine (List.nodup_map_iff fun a b h => by injection h).trans ?_
    simp [interfaces, bodyOfNode, enumValueTable, addEntries_faults_eq_nil_iff]
  | inputObject fields =>
    refine (List.nodup_map_iff fun a b h => by injection h).trans ?_
    simp [interfaces, bodyOfNode, inputFieldTable, addEntries_faults_eq_nil_iff]

theorem Sdl.Body.nodup_given_interfacesOnce_iff {type : Name} {b : Body} :
    (b.interfacesOnce.given type).Nodup ↔ (bodyOfNode type b).2 = [] := by
  rw [nodup_given_iff, and_iff_right (interfaces_interfacesOnce_nodup b),
    bodyOfNode_interfacesOnce]

/-- A body with the parts of another one gives what both give. -/
theorem Sdl.Body.given_append_perm {b c : Body} (h : b.kind = c.kind) (type : Name) :
    ((b.append c).given type).Perm (b.given type ++ c.given type) := by
  have hinterfaces (is js : List Name) (fs gs : List FieldNode) :
      ((is ++ js).map (Given.interface type) ++ (fs ++ gs).flatMap (FieldNode.given type)).Perm
        ((is.map (Given.interface type) ++ fs.flatMap (FieldNode.given type))
          ++ (js.map (Given.interface type) ++ gs.flatMap (FieldNode.given type))) := by
    rw [List.map_append, List.flatMap_append, List.append_assoc, List.append_assoc]
    exact List.perm_append_comm_assoc _ _ _ |>.append_left _
  cases b <;> cases c <;> try cases h
  case scalar.scalar => exact .refl _
  case object.object => exact hinterfaces _ _ _ _
  case interface.interface => exact hinterfaces _ _ _ _
  case union.union => exact .of_eq List.map_append
  case enum.enum => exact .of_eq (by simp [append, given])
  case inputObject.inputObject => exact .of_eq (by simp [append, given])

/-! ## Additions -/

/-- A list fills a table of its own and then one that is there without faults exactly when the
elements behind the table and those of the list fill one table. -/
theorem addTable_addEntries_faults_eq_nil_iff {α β : Type} {key : α → Name}
    {fault : α → DocumentFault} {fault' : Name → DocumentFault} {convert : α → Faulty β}
    (node : β → α) {t : Table Name β} {l : List α}
    (h : ∀ e ∈ t.entries, key (node e.2) = e.1 ∧ (convert (node e.2)).2 = []) :
    (addEntries key fault convert .empty l).2 = [] ∧
        (addTable fault' t (addEntries key fault convert .empty l).1).2 = [] ↔
      (addEntries key fault convert .empty (t.values.map node ++ l)).2 = [] := by
  have hkeys : (t.values.map node).map key = t.keys := by
    rw [Table.values, Table.keys, List.map_map, List.map_map]
    exact List.map_congr_left fun e he => (h e he).1
  have hconvert : ∀ a ∈ t.values.map node, (convert a).2 = [] := by
    rw [Table.values, List.map_map]
    exact List.forall_mem_map.mpr fun e he => (h e he).2
  have hadd (hl : (addEntries key fault convert .empty l).2 = []) :
      (addTable fault' t (addEntries key fault convert .empty l).1).2 = [] ↔
        (t.keys ++ l.map key).Nodup := by
    rw [addTable, addEntries_faults_eq_nil_iff, entries_addEntries hl]
    simp [Function.comp_def]
  rw [and_congr_right hadd, addEntries_faults_eq_nil_iff, addEntries_faults_eq_nil_iff,
    List.map_append, hkeys, List.forall_mem_append, and_iff_right hconvert]
  rw [and_right_comm]
  exact and_congr_left fun _ => and_iff_right_of_imp fun hnodup =>
    (List.nodup_append.mp hnodup).2.1

/-- A form meets no fault at the body of a type of its kind exactly when the body and what the form
adds give every part once. -/
theorem add_faults_eq_nil_iff {type type' : Name} {b : TypeBody} {c : Body} (hb : b.Keyed)
    (hkind : b.kind = c.kind) :
    (bodyOfNode type c).2 = [] ∧ (b.add type' (Addition.ofBody type c).1).2 = [] ↔
      (b.toBody.append c).interfaces.Nodup ∧ (bodyOfNode type (b.toBody.append c)).2 = [] := by
  have hfields {fs : Table Name Field} {gs : List FieldNode} {fault : Name → DocumentFault}
      (hfs : fs.Keyed Field.name ∧ ∀ f ∈ fs.values, f.Keyed) :
      (fieldTable type gs).2 = [] ∧ (addTable fault fs (fieldTable type gs).1).2 = [] ↔
        (fieldTable type (fs.values.map Field.toNode ++ gs)).2 = [] := by
    refine addTable_addEntries_faults_eq_nil_iff Field.toNode fun e he => ⟨hfs.1 e he, ?_⟩
    rw [fieldOfNode_toNode type (hfs.2 e.2 (Table.mem_values_of_mem he))]
  have hinterfaces {is : Distinct Name} {js : List Name} {fs : Table Name Field}
      {gs : List FieldNode} {fault fault' : Name → DocumentFault}
      (hfs : fs.Keyed Field.name ∧ ∀ f ∈ fs.values, f.Keyed) :
      (fieldTable type gs).2 = [] ∧
          (addElements fault is js).2 ++ (addTable fault' fs (fieldTable type gs).1).2 = [] ↔
        (is.toList ++ js).Nodup ∧ (fieldTable type (fs.values.map Field.toNode ++ gs)).2 = [] := by
    rw [List.append_eq_nil_iff, and_left_comm, addElements_faults_eq_nil_iff, hfields hfs]
  have hvalues {α : Type} {name : α → Name} {fault : α → DocumentFault}
      {fault' : Name → DocumentFault} {t : Table Name α} {l : List α} (ht : t.Keyed name) :
      (addEntries name fault (·, []) .empty l).2 = [] ∧
          (addTable fault' t (addEntries name fault (·, []) .empty l).1).2 = [] ↔
        (addEntries name fault (·, []) .empty (t.values ++ l)).2 = [] := by
    rw [← List.map_id t.values]
    exact addTable_addEntries_faults_eq_nil_iff id fun e he => ⟨ht e he, rfl⟩
  cases b <;> cases c <;> try cases hkind
  case scalar.scalar => simp [bodyOfNode, TypeBody.add, TypeBody.toBody, Body.append,
    Body.interfaces]
  case object.object is fs js gs => exact hinterfaces hb
  case interface.interface is fs js gs => exact hinterfaces hb
  case union.union ms ns =>
    refine Iff.trans ?_ (and_iff_right List.nodup_nil).symm
    show (memberSet type ns).2 = [] ∧ (addElements _ ms (memberSet type ns).1.toList).2 = [] ↔
      (memberSet type (ms.toList ++ ns)).2 = []
    have hlist (hns : ns.Nodup) : (memberSet type ns).1.toList = ns :=
      toList_addElements (memberSet_faults_eq_nil_iff.mpr hns)
    rw [addElements_faults_eq_nil_iff, memberSet_faults_eq_nil_iff, memberSet_faults_eq_nil_iff,
      and_congr_right fun hns => by rw [hlist hns]]
    exact and_iff_right_of_imp fun hnodup => (List.nodup_append.mp hnodup).2.1
  case enum.enum vs ws => exact (hvalues hb).trans (and_iff_right List.nodup_nil).symm
  case inputObject.inputObject fs gs =>
    exact (hvalues hb).trans (and_iff_right List.nodup_nil).symm

/-! ## Entry points -/

/-- Entry points are set without faults exactly when none of them is set already and none is
repeated. -/
theorem addRoots_faults_eq_nil_iff {r : RootOperations} {l : List (RootOperation × Name)} :
    (addRoots r l).2 = [] ↔
      (l.map Prod.fst).Nodup ∧ ∀ op ∈ l.map Prod.fst, r.get op = none := by
  induction l generalizing r with
  | nil => simp [addRoots]
  | cons entry l ih =>
    obtain ⟨op, n⟩ := entry
    rw [List.map_cons, List.nodup_cons, List.forall_mem_cons]
    cases hop : r.get op with
    | some existing =>
      rw [addRoots, hop]
      exact iff_of_false (List.cons_ne_nil _ _) fun h => by cases h.2.1
    | none =>
      have hnew : (∀ op' ∈ l.map Prod.fst, (r.set op (some n)).get op' = none) ↔
          op ∉ l.map Prod.fst ∧ ∀ op' ∈ l.map Prod.fst, r.get op' = none := by
        simp only [RootOperations.get_set]
        constructor
        · intro h
          refine ⟨fun hmem => ?_, fun op' hmem => ?_⟩
          · simpa using h op hmem
          · have h' := h op' hmem
            split at h'
            · cases h'
            · exact h'
        · rintro ⟨hop', h⟩ op' hmem
          rw [if_neg fun (he : op' = op) => hop' (he ▸ hmem), h op' hmem]
      rw [addRoots, hop]
      show (addRoots _ l).2 = [] ↔ _
      rw [ih, hnew]
      simp only [true_and]
      tauto

theorem isSome_get_addRoots {r : RootOperations} {l : List (RootOperation × Name)}
    {op : RootOperation} :
    ((addRoots r l).1.get op).isSome ↔ (r.get op).isSome ∨ op ∈ l.map Prod.fst := by
  induction l generalizing r with
  | nil => simp [addRoots]
  | cons entry l ih =>
    obtain ⟨op', n⟩ := entry
    rw [List.map_cons, List.mem_cons]
    cases hop : r.get op' with
    | some existing =>
      rw [addRoots, hop]
      show ((addRoots r l).1.get op).isSome ↔ _
      rw [ih]
      exact ⟨fun h => h.imp_right .inr, fun h => h.elim .inl fun h => h.elim
        (fun h => .inl (by rw [h, hop]; rfl)) .inr⟩
    | none =>
      rw [addRoots, hop]
      show ((addRoots _ l).1.get op).isSome ↔ _
      rw [ih, RootOperations.get_set]
      by_cases h : op = op'
      · simp [h]
      · simp [h]

end SchemaWeave
