import SchemaWeave.Proofs.EntryPoints
import SchemaWeave.Proofs.Parts
import SchemaWeave.Proofs.Violation

/-!
# Broken contracts

Five of the violations say that a type does not keep the contract of an interface. All others say
that a name does not resolve to a type of a kind that fits, or that a type is empty or has a field
twice. `resolved_iff` says when a schema has no violation of the second sort: that depends on
kinds and on the presence of parts only, not on what the parts are.
-/

namespace SchemaWeave

/-- Whether a violation is that a type does not keep the contract of an interface. -/
def Violation.breaksContract : Violation → Bool
  | fieldMissing _ _ _ => true
  | fieldDiffers _ _ _ _ _ => true
  | argumentMissing _ _ _ _ _ => true
  | argumentRequired _ _ _ _ => true
  | interfaceMissing _ _ _ => true
  | unknownType _ _ => false
  | wrongPosition _ _ _ _ => false
  | notAnInterface _ _ => false
  | wrongMember _ _ => false
  | wrongRoot _ _ => false
  | fieldRepeated _ _ => false
  | nothingInside _ _ => false

/-- Whether a type has something in it, as far as its kind asks for that. -/
def TypeBody.HasParts (b : TypeBody) : Prop := b.kind = .scalar ∨ b.partNames ≠ []

namespace Schema

variable {s : Schema}

/-- Whether every name in a schema resolves to a type of a kind that fits its place, and every
type has something in it. -/
structure Resolved (s : Schema) : Prop where
  references : ∀ r ∈ s.references,
    ∃ k, s.kind? r.type.innerName = some k ∧ r.position.allows k = true
  parts : ∀ d ∈ s.types.values, d.body.HasParts
  interfaces : ∀ d ∈ s.types.values, ∀ n ∈ d.body.interfaceNames, s.kind? n = some .interface
  members : ∀ d ∈ s.types.values, ∀ n ∈ d.body.memberNames, s.kind? n = some .object
  roots : ∀ op n, s.roots.get op = some n → s.kind? n = some .object

/-! ## Place by place -/

theorem forall_checkReference_iff {r : Reference} :
    (∀ v ∈ s.checkReference r, v.breaksContract = true) ↔
      ∃ k, s.kind? r.type.innerName = some k ∧ r.position.allows k = true := by
  unfold checkReference
  cases s.kind? r.type.innerName with
  | none => simp [Violation.breaksContract]
  | some k => by_cases h : r.position.allows k = true <;> simp [h, Violation.breaksContract]

theorem forall_checkRoot_iff {r : RootOperation × Name} :
    (∀ v ∈ s.checkRoot r, v.breaksContract = true) ↔ s.kind? r.2 = some .object := by
  unfold checkRoot
  cases s.kind? r.2 with
  | none => simp [Violation.breaksContract]
  | some k => cases k <;> simp [Violation.breaksContract]

theorem forall_checkMember_iff {union member : Name} :
    (∀ v ∈ s.checkMember union member, v.breaksContract = true) ↔
      s.kind? member = some .object := by
  unfold checkMember
  cases s.kind? member with
  | none => simp [Violation.breaksContract]
  | some k => cases k <;> simp [Violation.breaksContract]

theorem forall_checkParts_iff {kind : TypeKind} {type : Name} {none : Bool} :
    (∀ v ∈ checkParts kind type none, v.breaksContract = true) ↔ none = false := by
  cases none <;> simp [checkParts, Violation.breaksContract]

/-! ### Contracts -/

theorem breaksContract_of_mem_checkField {type interface name : Name} {f wanted : Field}
    {v : Violation} (hv : v ∈ s.checkField type interface name f wanted) :
    v.breaksContract = true := by
  unfold checkField at hv
  rcases List.mem_append.mp hv with hv | hv
  · rcases List.mem_append.mp hv with hv | hv
    · split at hv
      · cases hv
      · rw [List.mem_singleton.mp hv]
        rfl
    · obtain ⟨e, -, hv⟩ := List.mem_flatMap.mp hv
      split at hv
      · cases hv
      · rw [List.mem_singleton.mp hv]
        rfl
  · obtain ⟨a, -, rfl⟩ := List.mem_map.mp hv
    rfl

theorem breaksContract_of_mem_checkContract {type interface : Name}
    {fields wanted : Table Name Field} {v : Violation}
    (hv : v ∈ s.checkContract type interface fields wanted) :
    v.breaksContract = true := by
  obtain ⟨e, -, hv⟩ := List.mem_flatMap.mp hv
  split at hv
  · rw [List.mem_singleton.mp hv]
    rfl
  · exact breaksContract_of_mem_checkField hv

/-- Of an interface only its kind counts: all else that can be wrong breaks its contract. -/
theorem forall_checkInterface_iff {type interface : Name} {interfaces : Distinct Name}
    {fields : Table Name Field} :
    (∀ v ∈ s.checkInterface type interfaces fields interface, v.breaksContract = true) ↔
      s.kind? interface = some .interface := by
  unfold checkInterface kind?
  cases s.type? interface with
  | none => simp [Violation.breaksContract]
  | some e =>
    obtain ⟨name, description, directives, body⟩ := e
    cases body with
    | interface inherited wanted =>
      refine iff_of_true (fun v hv => ?_) rfl
      rcases List.mem_append.mp hv with hv | hv
      · obtain ⟨n, -, rfl⟩ := List.mem_map.mp hv
        rfl
      · exact breaksContract_of_mem_checkContract hv
    | _ => simp [Violation.breaksContract, TypeDefinition.kind, TypeBody.kind]

/-! ### Types -/

theorem forall_checkFields_iff {kind : TypeKind} {type : Name} {interfaces : Distinct Name}
    {fields : Table Name Field} (hf : fields.Keyed Field.name) :
    (∀ v ∈ s.checkFields kind type interfaces fields, v.breaksContract = true) ↔
      fields.keys ≠ [] ∧ ∀ n ∈ interfaces.toList, s.kind? n = some .interface := by
  rw [checkFields, repeatedFields_values hf, List.nil_append, List.forall_mem_append,
    List.forall_mem_flatMap, forall_checkParts_iff, Table.isEmpty_eq_false_iff]
  exact and_congr_right fun _ => forall₂_congr fun n _ => forall_checkInterface_iff

/-- What the check asks of a type, contracts aside. -/
theorem forall_checkType_iff {d : TypeDefinition} (hk : d.body.Keyed) :
    (∀ v ∈ s.checkType d, v.breaksContract = true) ↔
      d.body.HasParts ∧ (∀ n ∈ d.body.interfaceNames, s.kind? n = some .interface) ∧
        ∀ n ∈ d.body.memberNames, s.kind? n = some .object := by
  obtain ⟨name, description, directives, body⟩ := d
  cases body with
  | object interfaces fields =>
    refine (forall_checkFields_iff hk.1).trans ?_
    simp [TypeBody.HasParts, TypeBody.kind, TypeBody.partNames, TypeBody.interfaceNames,
      TypeBody.memberNames]
  | interface interfaces fields =>
    refine (forall_checkFields_iff hk.1).trans ?_
    simp [TypeBody.HasParts, TypeBody.kind, TypeBody.partNames, TypeBody.interfaceNames,
      TypeBody.memberNames]
  | union members =>
    show (∀ v ∈ checkParts .union name members.isEmpty ++ _, _) ↔ _
    rw [List.forall_mem_append, List.forall_mem_flatMap, forall_checkParts_iff]
    simp [TypeBody.HasParts, TypeBody.kind, TypeBody.partNames, TypeBody.interfaceNames,
      TypeBody.memberNames, forall_checkMember_iff, Distinct.isEmpty]
  | inputObject fields =>
    show (∀ v ∈ repeatedFields name (fields.values.map InputValue.name)
      ++ checkParts .inputObject name fields.isEmpty, _) ↔ _
    rw [repeatedFields_values hk, List.nil_append, forall_checkParts_iff,
      Table.isEmpty_eq_false_iff]
    simp [TypeBody.HasParts, TypeBody.kind, TypeBody.partNames, TypeBody.interfaceNames,
      TypeBody.memberNames]
  | enum values =>
    refine forall_checkParts_iff.trans ?_
    rw [Table.isEmpty_eq_false_iff]
    simp [TypeBody.HasParts, TypeBody.kind, TypeBody.partNames, TypeBody.interfaceNames,
      TypeBody.memberNames]
  | scalar =>
    simp [checkType, TypeBody.HasParts, TypeBody.kind, TypeBody.interfaceNames,
      TypeBody.memberNames]

/-! ## The schema -/

/-- A schema is resolved when nothing is wrong with it but broken contracts. -/
theorem resolved_iff (hk : ∀ d ∈ s.types.values, d.body.Keyed) :
    s.Resolved ↔ ∀ v ∈ s.violations, v.breaksContract = true := by
  have hviolations : (∀ v ∈ s.violations, v.breaksContract = true) ↔
      (∀ r ∈ s.references, ∀ v ∈ s.checkReference r, v.breaksContract = true) ∧
      (∀ d ∈ s.types.values, ∀ v ∈ s.checkType d, v.breaksContract = true) ∧
      ∀ r ∈ s.roots.toList, ∀ v ∈ s.checkRoot r, v.breaksContract = true := by
    simp only [violations, List.forall_mem_append, List.forall_mem_flatMap, and_assoc]
  have htypes : (∀ d ∈ s.types.values, ∀ v ∈ s.checkType d, v.breaksContract = true) ↔
      ∀ d ∈ s.types.values, d.body.HasParts ∧
        (∀ n ∈ d.body.interfaceNames, s.kind? n = some .interface) ∧
        ∀ n ∈ d.body.memberNames, s.kind? n = some .object :=
    forall₂_congr fun d hd => forall_checkType_iff (hk d hd)
  rw [hviolations, htypes]
  simp only [forall_checkReference_iff, forall_checkRoot_iff, Prod.forall,
    RootOperations.mem_toList]
  constructor
  · intro h
    exact ⟨h.references, fun d hd => ⟨h.parts d hd, h.interfaces d hd, h.members d hd⟩, h.roots⟩
  · rintro ⟨hrefs, htypes, hroots⟩
    exact ⟨hrefs, fun d hd => (htypes d hd).1, fun d hd => (htypes d hd).2.1,
      fun d hd => (htypes d hd).2.2, hroots⟩

end Schema

end SchemaWeave
