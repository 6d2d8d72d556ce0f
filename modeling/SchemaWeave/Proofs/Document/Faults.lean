import SchemaWeave.Proofs.Document.RoundTrip
import SchemaWeave.Proofs.Keyed.Names
import SchemaWeave.Proofs.Results

/-!
# Documents without faults

Elements fill a table without faults exactly when no two of them have one key and none is there
already. From tables to definitions and from definitions to documents this says when the document
of a schema is accepted: no two elements that stand side by side may have one name, since a
document has no keys to tell them apart.
-/

namespace SchemaWeave

open Sdl

/-! ## Tables -/

/-- Elements fill a table without faults exactly when neither the table nor they have a key twice
and each converts without faults. -/
theorem addEntries_faults_eq_nil_iff {α β : Type} {key : α → Name} {fault : α → DocumentFault}
    {convert : α → Faulty β} {t : Table Name β} {l : List α} :
    (addEntries key fault convert t l).2 = [] ↔
      (t.keys ++ l.map key).Nodup ∧ ∀ a ∈ l, (convert a).2 = [] := by
  induction l generalizing t with
  | nil => simp [addEntries, t.keys_nodup]
  | cons a l ih =>
    by_cases h : key a ∈ t.keys
    · rw [addEntries, if_pos (Table.contains_iff.mpr h)]
      refine iff_of_false (List.cons_ne_nil _ _) fun hnodup => ?_
      exact List.disjoint_of_nodup_append hnodup.1 h List.mem_cons_self
    · -- what is added moves from the elements to the table
      have hkeys : (t.insert (key a) (convert a).1).keys ++ l.map key
          = t.keys ++ (a :: l).map key := by
        rw [Table.keys_insert_of_not_mem _ h, List.append_assoc, List.map_cons]
        rfl
      rw [addEntries, if_neg (by rwa [Table.contains_iff]), List.append_eq_nil_iff, ih, hkeys,
        List.forall_mem_cons, and_left_comm]

/-- Elements that fill a table without faults stand after what was there, each converted. -/
theorem entries_addEntries {α β : Type} {key : α → Name} {fault : α → DocumentFault}
    {convert : α → Faulty β} {t : Table Name β} {l : List α}
    (h : (addEntries key fault convert t l).2 = []) :
    (addEntries key fault convert t l).1.entries
      = t.entries ++ l.map fun a => (key a, (convert a).1) := by
  induction l generalizing t with
  | nil => simp [addEntries]
  | cons a l ih =>
    by_cases ha : key a ∈ t.keys
    · rw [addEntries, if_pos (Table.contains_iff.mpr ha)] at h
      cases h
    · have hnew : ¬ t.contains (key a) = true := by rwa [Table.contains_iff]
      rw [addEntries, if_neg hnew] at h ⊢
      refine (ih (List.append_eq_nil_iff.mp h).2).trans ?_
      rw [Table.entries_insert_of_not_mem _ ha, List.append_assoc]
      rfl

theorem values_addEntries {α β : Type} {key : α → Name} {fault : α → DocumentFault}
    {convert : α → Faulty β} {t : Table Name β} {l : List α}
    (h : (addEntries key fault convert t l).2 = []) :
    (addEntries key fault convert t l).1.values = t.values ++ l.map fun a => (convert a).1 := by
  rw [Table.values, entries_addEntries h, List.map_append, List.map_map]
  rfl

/-- Elements are added to a set as they are appended to it. -/
theorem addElements_fst (fault : Name → DocumentFault) (s : Distinct Name) (l : List Name) :
    (addElements fault s l).1 = s.append l := by
  induction l generalizing s with
  | nil => rfl
  | cons n l ih => exact ih (s.insert n)

/-- Elements fill a set without faults exactly when neither the set nor they have one twice. -/
theorem addElements_faults_eq_nil_iff {fault : Name → DocumentFault} {s : Distinct Name}
    {l : List Name} : (addElements fault s l).2 = [] ↔ (s.toList ++ l).Nodup := by
  induction l generalizing s with
  | nil => simp [addElements, s.nodup]
  | cons n l ih =>
    by_cases h : n ∈ s.toList
    · refine iff_of_false ?_ fun hnodup => ?_
      · simp [addElements, Distinct.contains, h]
      · exact List.disjoint_of_nodup_append hnodup h List.mem_cons_self
    · have hlist : (s.insert n).toList ++ l = s.toList ++ n :: l := by
        rw [Distinct.toList_insert_of_not_mem h, List.append_assoc]
        rfl
      simp only [addElements, Distinct.contains, h, decide_false, Bool.false_eq_true, if_false, ih,
        hlist]

theorem argumentTable_faults_eq_nil_iff {owner : ArgumentOwner} {args : List InputValue} :
    (argumentTable owner args).2 = [] ↔ (args.map InputValue.name).Nodup := by
  rw [argumentTable, addEntries_faults_eq_nil_iff]
  simp

theorem fieldTable_faults_eq_nil_iff {type : Name} {nodes : List FieldNode} :
    (fieldTable type nodes).2 = [] ↔
      (nodes.map FieldNode.name).Nodup ∧ ∀ f ∈ nodes, (f.arguments.map InputValue.name).Nodup := by
  rw [fieldTable, addEntries_faults_eq_nil_iff]
  exact and_congr_right fun _ => forall₂_congr fun f _ => argumentTable_faults_eq_nil_iff

theorem memberSet_faults_eq_nil_iff {type : Name} {members : List Name} :
    (memberSet type members).2 = [] ↔ members.Nodup :=
  addElements_faults_eq_nil_iff

/-! ## Definitions -/

theorem fieldTable_toNode_faults_eq_nil_iff {type : Name} {fields : Table Name Field} :
    (fieldTable type (fields.values.map Field.toNode)).2 = [] ↔
      fields.NamesDistinct Field.name ∧ ∀ f ∈ fields.values, f.NamesDistinct := by
  rw [fieldTable_faults_eq_nil_iff, List.map_map, List.forall_mem_map]
  rfl

/-- The body of a type is read again without faults exactly when no two of its parts that stand
side by side have one name. -/
theorem bodyOfNode_faults_eq_nil_iff {type : Name} {b : TypeBody} :
    (bodyOfNode type b.toBody).2 = [] ↔ b.NamesDistinct := by
  cases b with
  | scalar => exact iff_of_true rfl trivial
  | object interfaces fields =>
    exact fieldTable_toNode_faults_eq_nil_iff.trans (and_iff_right interfaces.nodup).symm
  | interface interfaces fields =>
    exact fieldTable_toNode_faults_eq_nil_iff.trans (and_iff_right interfaces.nodup).symm
  | union members =>
    refine iff_of_true ?_ members.nodup
    simp only [TypeBody.toBody, bodyOfNode, memberSet, addElements_toList]
  | enum values =>
    show (enumValueTable type values.values).2 = [] ↔ _
    rw [enumValueTable, addEntries_faults_eq_nil_iff]
    simp [TypeBody.NamesDistinct, Table.NamesDistinct]
  | inputObject fields =>
    show (inputFieldTable type fields.values).2 = [] ↔ _
    rw [inputFieldTable, addEntries_faults_eq_nil_iff]
    simp [TypeBody.NamesDistinct, Table.NamesDistinct]

/-! ## Documents -/

namespace Schema

/-- Definitions that each add one key are collected without faults exactly when no key is there
twice and nothing is wrong inside them. -/
theorem collect_faults_eq_nil_iff {α : Type} {step : Schema → α → Faulty Schema} {key : α → Name}
    {Sound : α → Prop} {s : Schema} {l : List α} (keys : Schema → List Name)
    (hfaults : ∀ s a, (step s a).2 = [] ↔ key a ∉ keys s ∧ Sound a)
    (hkeys : ∀ s a, key a ∉ keys s → keys (step s a).1 = keys s ++ [key a])
    (hs : (keys s).Nodup) :
    (collect step s l).2 = [] ↔ (keys s ++ l.map key).Nodup ∧ ∀ a ∈ l, Sound a := by
  induction l generalizing s with
  | nil => simp [collect, hs]
  | cons a l ih =>
    rw [collect, List.append_eq_nil_iff, hfaults, List.forall_mem_cons]
    by_cases h : key a ∈ keys s
    · refine iff_of_false (fun h' => h'.1.1 h) fun hnodup => ?_
      exact List.disjoint_of_nodup_append hnodup.1 h List.mem_cons_self
    · have hnodup : (keys (step s a).1).Nodup := by
        rw [hkeys s a h]
        exact List.nodup_append.mpr ⟨hs, by simp, fun n hn m hm hnm =>
          h (List.mem_singleton.mp hm ▸ hnm ▸ hn)⟩
      rw [ih hnodup, hkeys s a h, List.append_assoc, List.map_cons]
      simp only [h, not_false_iff, true_and, List.singleton_append]
      exact and_left_comm

theorem collect_map {α β : Type} {step : Schema → β → Faulty Schema} {f : α → β} {s : Schema}
    {l : List α} : collect step s (l.map f) = collect (fun s a => step s (f a)) s l := by
  induction l generalizing s with
  | nil => rfl
  | cons a l ih => simp only [List.map_cons, collect, ih]

/-! ### Directives -/

theorem define_directive {s : Schema} {d : DirectiveDefinition} :
    s.define (.directive d.toNode) =
      if s.directiveDefinitions.contains d.name then
        (s, (directiveOfNode d.toNode).2 ++ [.directiveDefined d.name])
      else
        ({ s with directiveDefinitions :=
            s.directiveDefinitions.insert d.name (directiveOfNode d.toNode).1 },
          (directiveOfNode d.toNode).2) :=
  rfl

theorem define_directive_faults_eq_nil_iff {s : Schema} {d : DirectiveDefinition} :
    (s.define (.directive d.toNode)).2 = [] ↔
      d.name ∉ s.directiveDefinitions.keys ∧ d.NamesDistinct := by
  have hsound : (directiveOfNode d.toNode).2 = [] ↔ d.NamesDistinct :=
    argumentTable_faults_eq_nil_iff
  rw [← hsound, ← Table.contains_eq_false_iff, define_directive]
  cases s.directiveDefinitions.contains d.name <;> simp

theorem define_directive_keys {s : Schema} {d : DirectiveDefinition}
    (h : d.name ∉ s.directiveDefinitions.keys) :
    (s.define (.directive d.toNode)).1.directiveDefinitions.keys
      = s.directiveDefinitions.keys ++ [d.name] := by
  rw [define_directive, if_neg (by rwa [Table.contains_iff])]
  exact Table.keys_insert_of_not_mem _ h

/-- Directive definitions leave the types alone. -/
theorem define_directive_types {s : Schema} {d : DirectiveDefinition} :
    (s.define (.directive d.toNode)).1.types = s.types := by
  rw [define_directive]
  split <;> rfl

theorem collect_directives_faults_eq_nil_iff {s : Schema} {ds : List DirectiveDefinition} :
    (collect define s (ds.map fun d => .directive d.toNode)).2 = [] ↔
      (s.directiveDefinitions.keys ++ ds.map DirectiveDefinition.name).Nodup ∧
        ∀ d ∈ ds, d.NamesDistinct := by
  rw [collect_map]
  exact collect_faults_eq_nil_iff (fun s => s.directiveDefinitions.keys)
    (fun _ _ => define_directive_faults_eq_nil_iff) (fun _ _ => define_directive_keys)
    s.directiveDefinitions.keys_nodup

theorem collect_directives_types {s : Schema} {ds : List DirectiveDefinition} :
    (collect define s (ds.map fun d => .directive d.toNode)).1.types = s.types := by
  rw [collect_map]
  exact collect_induct (P := fun s' => s'.types = s.types)
    (fun _ _ h => define_directive_types.trans h) ds rfl

/-! ### Types -/

theorem define_type {s : Schema} {d : TypeDefinition} :
    s.define (.type d.toNode) =
      if s.types.contains d.name then (s, (typeOfNode d.toNode).2 ++ [.typeDefined d.name])
      else
        ({ s with types := s.types.insert d.name (typeOfNode d.toNode).1 },
          (typeOfNode d.toNode).2) :=
  rfl

theorem define_type_faults_eq_nil_iff {s : Schema} {d : TypeDefinition} :
    (s.define (.type d.toNode)).2 = [] ↔ d.name ∉ s.types.keys ∧ d.body.NamesDistinct := by
  have hsound : (typeOfNode d.toNode).2 = [] ↔ d.body.NamesDistinct :=
    bodyOfNode_faults_eq_nil_iff
  rw [← hsound, ← Table.contains_eq_false_iff, define_type]
  cases s.types.contains d.name <;> simp

theorem define_type_keys {s : Schema} {d : TypeDefinition} (h : d.name ∉ s.types.keys) :
    (s.define (.type d.toNode)).1.types.keys = s.types.keys ++ [d.name] := by
  rw [define_type, if_neg (by rwa [Table.contains_iff])]
  exact Table.keys_insert_of_not_mem _ h

theorem collect_types_faults_eq_nil_iff {s : Schema} {ds : List TypeDefinition} :
    (collect define s (ds.map fun d => .type d.toNode)).2 = [] ↔
      (s.types.keys ++ ds.map TypeDefinition.name).Nodup ∧ ∀ d ∈ ds, d.body.NamesDistinct := by
  rw [collect_map]
  exact collect_faults_eq_nil_iff (fun s => s.types.keys)
    (fun _ _ => define_type_faults_eq_nil_iff) (fun _ _ => define_type_keys) s.types.keys_nodup

/-! ### Schemas -/

/-- The definitions of a schema are collected without faults exactly when no two elements that
stand side by side have one name. -/
theorem collect_toDocument_faults_eq_nil_iff {s : Schema} :
    (collect define (empty s.name) s.toDocument.definitions).2 = [] ↔ s.NamesDistinct := by
  simp only [toDocument, collect_append, collect_define_node, List.nil_append,
    List.append_eq_nil_iff, collect_directives_faults_eq_nil_iff, collect_types_faults_eq_nil_iff,
    collect_directives_types, Table.keys_empty]
  constructor
  · rintro ⟨⟨hdirectives, harguments⟩, htypes, hbodies⟩
    exact ⟨htypes, hbodies, hdirectives, harguments⟩
  · intro h
    exact ⟨⟨h.directives, h.arguments⟩, h.types, h.bodies⟩

/-- The document of a schema is accepted only where no two elements that stand side by side have
one name. -/
theorem namesDistinct_of_ofDocument {s s' : Schema}
    (h : ofDocument s.name s.toDocument = .ok s') : s.NamesDistinct := by
  obtain ⟨s₀, hs₀, -⟩ := bind_eq_ok_iff.mp h
  have hfaults := (extendBy_eq_ok hs₀).2
  simp only [collect, addDocument, List.append_eq_nil_iff] at hfaults
  exact collect_toDocument_faults_eq_nil_iff.mp hfaults.1.1

end Schema

end SchemaWeave
