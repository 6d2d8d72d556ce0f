import SchemaWeave.Proofs.Keyed.Rewrite
import SchemaWeave.Proofs.WellFormed

/-!
# A change of one field

Removing a field and renaming it are one kind of change: the field of a name gets another name or
goes, and everything else stays as it is and where it is. `Schema.FieldBecomes` says so of two
schemas without the tables that are behind them.
-/

namespace SchemaWeave

/-! ## Elements -/

section Elements

variable {α : Type} {name : α → Name} {put : α → Name → α} {old : Name} {new : Option Name}

/-- What becomes of an element when the one of a name gets another name, or goes. -/
def fate (name : α → Name) (put : α → Name → α) (old : Name) (new : Option Name) (a : α) :
    Option α :=
  if name a = old then new.map (put a) else some a

theorem fate_eq_some_iff {a x : α} :
    fate name put old new a = some x ↔
      name a ≠ old ∧ a = x ∨ name a = old ∧ ∃ n, new = some n ∧ put a n = x := by
  unfold fate
  by_cases h : name a = old <;> simp [h, Option.map_eq_some_iff]

theorem mem_filterMap_fate_iff {l : List α} {x : α} :
    x ∈ l.filterMap (fate name put old new) ↔
      x ∈ l ∧ name x ≠ old ∨ ∃ a ∈ l, name a = old ∧ ∃ n, new = some n ∧ put a n = x := by
  simp only [List.mem_filterMap, fate_eq_some_iff]
  constructor
  · rintro ⟨a, ha, ⟨hne, rfl⟩ | hold⟩
    · exact Or.inl ⟨ha, hne⟩
    · exact Or.inr ⟨a, ha, hold⟩
  · rintro (⟨hx, hne⟩ | ⟨a, ha, hold⟩)
    · exact ⟨x, hx, Or.inl ⟨hne, rfl⟩⟩
    · exact ⟨a, ha, Or.inr hold⟩

theorem exists_mem_filterMap_fate_iff (hput : ∀ a n, name (put a n) = n) {l : List α} {n : Name} :
    (∃ x ∈ l.filterMap (fate name put old new), name x = n) ↔
      (∃ a ∈ l, name a = n) ∧ n ≠ old ∨ new = some n ∧ ∃ a ∈ l, name a = old := by
  simp only [mem_filterMap_fate_iff]
  constructor
  · rintro ⟨x, ⟨hx, hne⟩ | ⟨a, ha, hold, m, hm, rfl⟩, rfl⟩
    · exact Or.inl ⟨⟨x, hx, rfl⟩, hne⟩
    · exact Or.inr ⟨by rw [hm, hput], a, ha, hold⟩
  · rintro (⟨⟨a, ha, rfl⟩, hne⟩ | ⟨hm, a, ha, hold⟩)
    · exact ⟨a, Or.inl ⟨ha, hne⟩, rfl⟩
    · exact ⟨put a n, Or.inr ⟨a, ha, hold, n, hm, rfl⟩, hput a n⟩

theorem Table.Keyed.values_erase {t : Table Name α} (h : t.Keyed name) (put : α → Name → α)
    (k : Name) : (t.erase k).values = t.values.filterMap (fate name put k none) := by
  show (t.entries.filter _).map Prod.snd = (t.entries.map Prod.snd).filterMap _
  rw [List.filterMap_map, ← List.filterMap_eq_map, List.filterMap_filter]
  refine List.filterMap_congr fun e he => ?_
  by_cases hk : e.1 = k <;> simp [fate, h e he, hk]

theorem Table.Keyed.values_rekey {t : Table Name α} (h : t.Keyed name) (put : α → Name → α)
    {k k' : Name} (hnew : k' ∉ t.keys) :
    (t.rekey k k' fun a => put a k').values = t.values.filterMap (fate name put k (some k')) := by
  rw [values, values, entries_rekey fun hm => absurd hm hnew, List.map_map, List.filterMap_map,
    ← List.filterMap_eq_map]
  refine List.filterMap_congr fun e he => ?_
  by_cases hk : e.1 = k <;> simp [fate, h e he, hk]

end Elements

/-! ## Types -/

/-- The field under another name. -/
def Field.withName (f : Field) (n : Name) : Field := { f with name := n }

/-- The input field under another name. -/
def InputValue.withName (v : InputValue) (n : Name) : InputValue := { v with name := n }

namespace TypeBody

/-- Whether a body is another one in which the field of a name has got another name, or has gone.
For a keyed body of a kind with fields this leaves nothing open. -/
structure FieldBecomes (b : TypeBody) (old : Name) (new : Option Name) (b' : TypeBody) : Prop where
  kind : b'.kind = b.kind
  interfaces : b'.interfaceNames = b.interfaceNames
  members : b'.memberNames = b.memberNames
  outputFields : b'.outputFields = b.outputFields.filterMap (fate Field.name .withName old new)
  inputFields : b'.inputFields = b.inputFields.filterMap (fate InputValue.name .withName old new)

variable {b b' : TypeBody} {old : Name} {new : Option Name}

theorem withoutField_fieldBecomes (hb : b.Keyed) (field : Name) :
    b.FieldBecomes field none (b.withoutField field) := by
  cases b with
  | object _ fields => exact ⟨rfl, rfl, rfl, hb.1.values_erase Field.withName field, rfl⟩
  | interface _ fields => exact ⟨rfl, rfl, rfl, hb.1.values_erase Field.withName field, rfl⟩
  | inputObject fields =>
    exact ⟨rfl, rfl, rfl, rfl, Table.Keyed.values_erase hb InputValue.withName field⟩
  | _ => exact ⟨rfl, rfl, rfl, rfl, rfl⟩

theorem renameField_fieldBecomes (hb : b.Keyed) {n : Name} (hn : b.hasField n = false) :
    b.FieldBecomes old (some n) (b.renameField old n) := by
  have hfree {α : Type} {t : Table Name α} (h : t.contains n = false) : n ∉ t.keys :=
    Table.contains_eq_false_iff.mp h
  cases b with
  | object _ fields => exact ⟨rfl, rfl, rfl, hb.1.values_rekey Field.withName (hfree hn), rfl⟩
  | interface _ fields => exact ⟨rfl, rfl, rfl, hb.1.values_rekey Field.withName (hfree hn), rfl⟩
  | inputObject fields =>
    exact ⟨rfl, rfl, rfl, rfl, Table.Keyed.values_rekey hb InputValue.withName (hfree hn)⟩
  | _ => exact ⟨rfl, rfl, rfl, rfl, rfl⟩

/-- A kind with fields has something in it as long as it has a field. -/
theorem hasParts_iff_exists_hasField {m : Name} (hm : b.hasField m = true)
    (hkind : b'.kind = b.kind) : b'.HasParts ↔ ∃ n, b'.hasField n = true := by
  have htable {α : Type} {t : Table Name α} : t.keys ≠ [] ↔ ∃ n, t.contains n = true := by
    simp only [Table.contains_iff]
    exact ⟨List.exists_mem_of_ne_nil _, fun h => h.elim fun _ => List.ne_nil_of_mem⟩
  cases b' with
  | object _ fields => simpa [HasParts, TypeBody.kind, partNames, hasField] using htable
  | interface _ fields => simpa [HasParts, TypeBody.kind, partNames, hasField] using htable
  | inputObject fields => simpa [HasParts, TypeBody.kind, partNames, hasField] using htable
  | _ => cases b <;> first | cases hm | cases hkind

namespace FieldBecomes

/-- What a keyed body of a kind with fields becomes is determined. -/
theorem unique {c : TypeBody} {m : Name} (hm : b.hasField m = true) (hb' : b'.Keyed) (hc : c.Keyed)
    (h : b.FieldBecomes old new b') (h' : b.FieldBecomes old new c) : b' = c := by
  have hkind : c.kind = b'.kind := h'.kind.trans h.kind.symm
  have hfields : b'.outputFields = c.outputFields := h.outputFields.trans h'.outputFields.symm
  have hinputs : b'.inputFields = c.inputFields := h.inputFields.trans h'.inputFields.symm
  have hinterfaces : b'.interfaceNames = c.interfaceNames := h.interfaces.trans h'.interfaces.symm
  cases b' with
  | object i f =>
    cases c with
    | object j g =>
      exact congrArg₂ object (Distinct.ext hinterfaces) (hb'.1.ext_values hc.1 hfields)
    | _ => cases hkind
  | interface i f =>
    cases c with
    | interface j g =>
      exact congrArg₂ interface (Distinct.ext hinterfaces) (hb'.1.ext_values hc.1 hfields)
    | _ => cases hkind
  | inputObject f =>
    cases c with
    | inputObject g => exact congrArg inputObject (Table.Keyed.ext_values hb' hc hinputs)
    | _ => cases hkind
  | _ =>
    have hkind := h.kind
    cases b <;> first | cases hm | cases hkind

variable (h : b.FieldBecomes old new b')
include h

theorem hasField_iff (hb : b.Keyed) (hb' : b'.Keyed) {n : Name} :
    b'.hasField n = true ↔
      b.hasField n = true ∧ n ≠ old ∨ new = some n ∧ b.hasField old = true := by
  rw [hb'.hasField_iff, hb.hasField_iff, hb.hasField_iff, h.outputFields, h.inputFields,
    exists_mem_filterMap_fate_iff fun _ _ => rfl, exists_mem_filterMap_fate_iff fun _ _ => rfl,
    or_or_or_comm, ← or_and_right, ← and_or_left]

/-- A field that is renamed refers to what it has referred to. -/
theorem exists_mem_references {d : TypeDefinition} (hd : d.body = b) {r : Reference}
    (hr : r ∈ { d with body := b' }.references) :
    ∃ q ∈ d.references, q.type = r.type ∧ q.position = r.position := by
  rw [TypeDefinition.mem_references_iff_fields, h.outputFields, h.inputFields] at hr
  simp only [TypeDefinition.mem_references_iff_fields, hd]
  rcases hr with ⟨x, hx, hr⟩ | ⟨x, hx, rfl⟩
  · rcases mem_filterMap_fate_iff.mp hx with ⟨hx, -⟩ | ⟨w, hw, -, n, -, rfl⟩
    · exact ⟨r, Or.inl ⟨x, hx, hr⟩, rfl, rfl⟩
    · rcases List.mem_cons.mp hr with rfl | hr
      · exact ⟨_, Or.inl ⟨w, hw, List.mem_cons_self⟩, rfl, rfl⟩
      · obtain ⟨a, ha, rfl⟩ := List.mem_map.mp hr
        exact ⟨_, Or.inl ⟨w, hw, List.mem_cons_of_mem _ (List.mem_map_of_mem ha)⟩, rfl, rfl⟩
  · rcases mem_filterMap_fate_iff.mp hx with ⟨hx, -⟩ | ⟨v, hv, -, n, -, rfl⟩
    · exact ⟨_, Or.inr ⟨x, hx, rfl⟩, rfl, rfl⟩
    · exact ⟨_, Or.inr ⟨v, hv, rfl⟩, rfl, rfl⟩

/-! ### Contracts -/

variable {s : Schema} {c : TypeBody}

/-- What a type is asked for by an interface can do without a field under a name exactly when the
interface has no field of that name. -/
theorem covers_iff (hnew : new ≠ some old) (hc : s.Covers b c) :
    s.Covers b' c ↔ ∀ w ∈ c.outputFields, w.name ≠ old := by
  constructor
  · intro hc' w hw hname
    obtain ⟨f, hf, himplements⟩ := hc' w hw
    rw [h.outputFields] at hf
    rcases mem_filterMap_fate_iff.mp hf with ⟨-, hne⟩ | ⟨a, -, -, n, hn, rfl⟩
    · exact hne (himplements.name.trans hname)
    · exact hnew (hn.trans (congrArg some (himplements.name.trans hname)))
  · intro hne w hw
    obtain ⟨f, hf, himplements⟩ := hc w hw
    refine ⟨f, ?_, himplements⟩
    rw [h.outputFields]
    exact mem_filterMap_fate_iff.mpr (Or.inl ⟨hf, himplements.name ▸ hne w hw⟩)

/-- What an interface asks for is there after the change exactly when the renamed field is. -/
theorem covered_iff (hc : s.Covers c b) :
    s.Covers c b' ↔ ∀ w ∈ b.outputFields, w.name = old → ∀ n, new = some n →
      ∃ f ∈ c.outputFields, s.Implements f (w.withName n) := by
  rw [Schema.Covers, h.outputFields]
  simp only [mem_filterMap_fate_iff]
  constructor
  · intro hc' w hw hold n hn
    exact hc' _ (Or.inr ⟨w, hw, hold, n, hn, rfl⟩)
  · rintro hrenamed x (⟨hx, -⟩ | ⟨w, hw, hold, n, hn, rfl⟩)
    · exact hc x hx
    · exact hrenamed w hw hold n hn

end FieldBecomes

end TypeBody

/-! ## Schemas -/

namespace Schema

/-- Whether a schema is another one in which the field of a name has got another name in one type,
or has gone from it. -/
structure FieldBecomes (s : Schema) (type old : Name) (new : Option Name) (s' : Schema) : Prop where
  rest : s' = { s with types := s'.types }
  keys : s'.types.keys = s.types.keys
  others : ∀ n, n ≠ type → s'.types.get? n = s.types.get? n
  changed : ∀ d, s.types.get? type = some d →
    ∃ b, s'.types.get? type = some { d with body := b } ∧ d.body.FieldBecomes old new b

variable {s s' : Schema} {type old : Name} {new : Option Name}

/-- What a keyed schema becomes is determined, where the type has a field. -/
theorem FieldBecomes.unique {t : Schema} {d : TypeDefinition} {m : Name}
    (hd : s.types.get? type = some d) (hm : d.hasField m = true) (hk' : s'.Keyed) (hk : t.Keyed)
    (h : s.FieldBecomes type old new s') (h' : s.FieldBecomes type old new t) : s' = t := by
  have htypes : s'.types = t.types := by
    refine Table.ext_get? (h.keys.trans h'.keys.symm) fun n _ => ?_
    by_cases hn : n = type
    · subst hn
      obtain ⟨b, hb, hbody⟩ := h.changed d hd
      obtain ⟨c, hc, hbody'⟩ := h'.changed d hd
      have hsame : b = c := hbody.unique hm (hk'.bodies _ (Table.mem_values_of_get? hb))
        (hk.bodies _ (Table.mem_values_of_get? hc)) hbody'
      rw [hb, hc, hsame]
    · rw [h.others n hn, h'.others n hn]
  rw [h.rest, h'.rest, htypes]

theorem fieldBecomes_of_modify {f : TypeBody → TypeBody}
    (hf : ∀ d, s.types.get? type = some d → d.body.FieldBecomes old new (f d.body)) :
    s.FieldBecomes type old new
      { s with types := s.types.modify type fun d => { d with body := f d.body } } := by
  refine ⟨rfl, Table.keys_map _ _, fun n hn => ?_, fun d hd => ⟨f d.body, ?_, hf d hd⟩⟩
  · show (s.types.map _).get? n = _
    simp [Table.get?_map, hn]
  · show (s.types.map _).get? type = _
    simp [Table.get?_map, hd]

theorem withoutField_fieldBecomes (hk : s.Keyed) (type field : Name) :
    s.FieldBecomes type field none (s.withoutField type field) :=
  fieldBecomes_of_modify (f := (·.withoutField field)) fun d hd =>
    TypeBody.withoutField_fieldBecomes (hk.bodies d (Table.mem_values_of_get? hd)) field

theorem renameField_fieldBecomes (hk : s.Keyed) {d : TypeDefinition}
    (hd : s.types.get? type = some d) {n : Name} (hn : d.hasField n = false) :
    s.FieldBecomes type old (some n) (s.renameField type old n) := by
  refine fieldBecomes_of_modify (f := (·.renameField old n)) fun e he => ?_
  cases hd.symm.trans he
  exact TypeBody.renameField_fieldBecomes (hk.bodies d (Table.mem_values_of_get? hd)) hn

end Schema

end SchemaWeave
