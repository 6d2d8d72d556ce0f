import SchemaWeave.Proofs.Merge.Disputes

/-!
# The first definition counts

What the built-in handlers make of several definitions, spelled out: the definitions are written
one after another, and of several fields, values, interfaces or members of one name the first
stays where it is and the others are dropped. A directive that the first definition applies twice
is applied twice, and each further one once.

The handlers come to this step by step, each step being the same union of what there is so far
and one more definition.
-/

namespace SchemaWeave

/-! ## First occurrences -/

section FirstOccurrences

variable {α : Type} {r : α → α → Bool}

/-- Appends one element after another, unless it is like one that is there. -/
def appendNew (r : α → α → Bool) (acc l : List α) : List α :=
  l.foldl (fun acc a => if acc.any (r a) then acc else acc ++ [a]) acc

theorem appendNew_append (acc l m : List α) :
    appendNew r acc (l ++ m) = appendNew r (appendNew r acc l) m := List.foldl_append

/-- What is appended is the first of each sort that is not there yet. -/
theorem appendNew_eq (acc l : List α) :
    appendNew r acc l = acc ++ (l.filter fun a => !acc.any (r a)).eraseDupsBy r := by
  induction l generalizing acc with
  | nil => simp [appendNew]
  | cons a l ih =>
    have hstep : appendNew r acc (a :: l)
        = appendNew r (if acc.any (r a) then acc else acc ++ [a]) l := rfl
    rw [hstep, ih]
    by_cases ha : acc.any (r a) = true
    · simp [ha]
    · simp [ha, List.eraseDupsBy_cons, List.filter_filter, Bool.and_comm]

theorem appendNew_nil (l : List α) : appendNew r [] l = l.eraseDupsBy r := by
  simp [appendNew_eq]

theorem eraseDupsBy_of_pairwise {l : List α} (h : l.Pairwise fun a b => r b a = false) :
    l.eraseDupsBy r = l := by
  induction l with
  | nil => rfl
  | cons a l ih =>
    obtain ⟨ha, hl⟩ := List.pairwise_cons.mp h
    rw [List.eraseDupsBy_cons, List.filter_eq_self.mpr fun b hb => decide_eq_true (ha b hb), ih hl]

/-- Repetitions can be dropped first in a part of a list and then in the whole. -/
theorem eraseDupsBy_append {u l : List α} (h : u.Pairwise fun a b => r b a = false)
    (hu : u = l.eraseDupsBy r) (m : List α) :
    (u ++ m).eraseDupsBy r = (l ++ m).eraseDupsBy r := by
  rw [← appendNew_nil, appendNew_append, appendNew_nil, eraseDupsBy_of_pairwise h, hu,
    ← appendNew_nil, ← appendNew_append, appendNew_nil]

end FirstOccurrences

/-- The entries under names that have not come before. -/
def firstEntries {α : Type} (l : List (Name × α)) : List (Name × α) :=
  l.eraseDupsBy fun e e' => e.1 == e'.1

section Entries

variable {α : Type}

theorem Table.entries_pairwise (t : Table Name α) :
    t.entries.Pairwise fun e e' => (e'.1 == e.1) = false := by
  have h := List.pairwise_map.mp t.nodup
  exact h.imp fun hne => beq_eq_false_iff_ne.mpr hne.symm

theorem Table.entries_insertIfNew (t : Table Name α) (e : Name × α) :
    (t.insertIfNew e.1 e.2).entries
      = if t.entries.any (fun e' => e.1 == e'.1) then t.entries else t.entries ++ [e] := by
  have hmem : t.entries.any (fun e' => e.1 == e'.1) = true ↔ e.1 ∈ t.keys := by
    rw [List.any_eq_true, keys, List.mem_map]
    exact exists_congr fun e' => and_congr_right fun _ => beq_iff_eq.trans eq_comm
  by_cases h : e.1 ∈ t.keys
  · rw [insertIfNew_of_mem e.2 h, if_pos (hmem.mpr h)]
  · rw [insertIfNew_of_not_mem e.2 h, if_neg (mt hmem.mp h), entries_insert_of_not_mem e.2 h]

theorem Table.entries_foldl_insertIfNew (t : Table Name α) (l : List (Name × α)) :
    (l.foldl (fun t e => t.insertIfNew e.1 e.2) t).entries = firstEntries (t.entries ++ l) := by
  have hwalk : (l.foldl (fun t e => t.insertIfNew e.1 e.2) t).entries
      = appendNew (fun e e' => e.1 == e'.1) t.entries l :=
    (List.foldl_hom Table.entries fun t e => (t.entries_insertIfNew e).symm).symm
  rw [hwalk, firstEntries, ← appendNew_nil, appendNew_append, appendNew_nil,
    eraseDupsBy_of_pairwise t.entries_pairwise]

theorem entries_uniteTables (t added : Table Name α) :
    (uniteTables t added).entries = firstEntries (t.entries ++ added.entries) :=
  t.entries_foldl_insertIfNew added.entries

theorem entries_uniteEntries (same : α → α → Bool) (t : Table Name α) (l : List (Name × α)) :
    (uniteEntries same t l).1.entries = firstEntries (t.entries ++ l) := by
  have hwalk : (uniteEntries same t l).1 = l.foldl (fun t e => t.insertIfNew e.1 e.2) t := by
    induction l generalizing t with
    | nil => rfl
    | cons e l ih =>
      rw [uniteEntries, List.foldl_cons]
      split
      · next hget => rw [ih, Table.insertIfNew_of_not_mem _ (Table.get?_eq_none_iff.mp hget)]
      · next hget =>
        rw [Table.insertIfNew_of_mem _ (Table.mem_keys_of_get? hget)]
        exact ih t
  rw [hwalk, t.entries_foldl_insertIfNew]

end Entries

theorem Distinct.toList_pairwise {α : Type} [DecidableEq α] (s : Distinct α) :
    s.toList.Pairwise fun a b => (b == a) = false :=
  s.nodup.imp fun hne => beq_eq_false_iff_ne.mpr hne.symm

theorem Distinct.toList_append {α : Type} [DecidableEq α] (s : Distinct α) (l : List α) :
    (s.append l).toList = (s.toList ++ l).eraseDups := by
  have hstep (s : Distinct α) (a : α) :
      (s.insert a).toList = if s.toList.any (a == ·) then s.toList else s.toList ++ [a] := by
    by_cases h : a ∈ s.toList
    · rw [insert_of_mem h, if_pos (by simpa using h)]
    · rw [toList_insert_of_not_mem h, if_neg (by simpa using h)]
  have hwalk : (s.append l).toList = appendNew (· == ·) s.toList l :=
    (List.foldl_hom Distinct.toList fun s a => (hstep s a).symm).symm
  rw [hwalk, List.eraseDups, ← appendNew_nil, appendNew_append, appendNew_nil,
    eraseDupsBy_of_pairwise s.toList_pairwise]

/-- Directives that are not applied yet are applied once. -/
theorem appendDirectives_eq (ds more : List Directive) :
    appendDirectives ds more = ds ++ (more.filter fun x => x ∉ ds).eraseDups := by
  have hwalk : appendDirectives ds more = appendNew (· == ·) ds more := by
    unfold appendDirectives appendNew
    simp only [List.contains_eq_any_beq]
  rw [hwalk, appendNew_eq]
  simp [List.eraseDups, List.any_beq]

/-! ## Bodies -/

namespace TypeBody

/-- The output fields with their names, in their order. -/
def fieldEntries : TypeBody → List (Name × Field)
  | .object _ fields => fields.entries
  | .interface _ fields => fields.entries
  | _ => []

/-- The input fields with their names, in their order. -/
def inputFieldEntries : TypeBody → List (Name × InputValue)
  | .inputObject fields => fields.entries
  | _ => []

/-- The enum values with their names, in their order. -/
def enumValueEntries : TypeBody → List (Name × EnumValue)
  | .enum values => values.entries
  | _ => []

/-- Whether a body is that of several bodies of its kind written one after another, where what
has come before is dropped. -/
structure IsUnionOf (b : TypeBody) (bs : List TypeBody) : Prop where
  kind : ∀ c ∈ bs, c.kind = b.kind
  fields : b.fieldEntries = firstEntries (bs.flatMap fieldEntries)
  inputFields : b.inputFieldEntries = firstEntries (bs.flatMap inputFieldEntries)
  enumValues : b.enumValueEntries = firstEntries (bs.flatMap enumValueEntries)
  interfaces : b.interfaceNames = (bs.flatMap interfaceNames).eraseDups
  members : b.memberNames = (bs.flatMap memberNames).eraseDups

theorem fieldEntries_pairwise (b : TypeBody) :
    b.fieldEntries.Pairwise fun e e' => (e'.1 == e.1) = false := by
  cases b with
  | object is fields => exact fields.entries_pairwise
  | interface is fields => exact fields.entries_pairwise
  | _ => exact .nil

theorem inputFieldEntries_pairwise (b : TypeBody) :
    b.inputFieldEntries.Pairwise fun e e' => (e'.1 == e.1) = false := by
  cases b with
  | inputObject fields => exact fields.entries_pairwise
  | _ => exact .nil

theorem enumValueEntries_pairwise (b : TypeBody) :
    b.enumValueEntries.Pairwise fun e e' => (e'.1 == e.1) = false := by
  cases b with
  | enum values => exact values.entries_pairwise
  | _ => exact .nil

theorem interfaceNames_pairwise (b : TypeBody) :
    b.interfaceNames.Pairwise fun m n => (n == m) = false := by
  cases b with
  | object is fields => exact is.toList_pairwise
  | interface is fields => exact is.toList_pairwise
  | _ => exact .nil

theorem memberNames_pairwise (b : TypeBody) :
    b.memberNames.Pairwise fun m n => (n == m) = false := by
  cases b with
  | union ms => exact ms.toList_pairwise
  | _ => exact .nil

namespace IsUnionOf

variable {b c u r : TypeBody} {bs : List TypeBody}

theorem self (b : TypeBody) : b.IsUnionOf [b] where
  kind := by simp
  fields := by simp [firstEntries, eraseDupsBy_of_pairwise b.fieldEntries_pairwise]
  inputFields := by simp [firstEntries, eraseDupsBy_of_pairwise b.inputFieldEntries_pairwise]
  enumValues := by simp [firstEntries, eraseDupsBy_of_pairwise b.enumValueEntries_pairwise]
  interfaces := by simp [List.eraseDups, eraseDupsBy_of_pairwise b.interfaceNames_pairwise]
  members := by simp [List.eraseDups, eraseDupsBy_of_pairwise b.memberNames_pairwise]

/-- The union of two bodies may stand for them among others. -/
theorem cons (hu : u.IsUnionOf [b, c]) (hr : r.IsUnionOf (u :: bs)) :
    r.IsUnionOf (b :: c :: bs) := by
  have hread {β : Type} {q : β → β → Bool} {read : TypeBody → List β}
      (hp : (read u).Pairwise fun x y => q y x = false)
      (h : read u = ([b, c].flatMap read).eraseDupsBy q)
      (h' : read r = ((u :: bs).flatMap read).eraseDupsBy q) :
      read r = ((b :: c :: bs).flatMap read).eraseDupsBy q := by
    rw [h', List.flatMap_cons, eraseDupsBy_append hp h]
    simp
  have hur : u.kind = r.kind := hr.kind u (by simp)
  refine ⟨fun x hx => ?_, hread u.fieldEntries_pairwise hu.fields hr.fields,
    hread u.inputFieldEntries_pairwise hu.inputFields hr.inputFields,
    hread u.enumValueEntries_pairwise hu.enumValues hr.enumValues,
    hread u.interfaceNames_pairwise hu.interfaces hr.interfaces,
    hread u.memberNames_pairwise hu.members hr.members⟩
  rcases List.mem_cons.mp hx with rfl | hx
  · exact (hu.kind x (by simp)).trans hur
  · rcases List.mem_cons.mp hx with rfl | hx
    · exact (hu.kind x (by simp)).trans hur
    · exact hr.kind x (by simp [hx])

/-- The bodies leave no choice. -/
theorem unique (h : b.IsUnionOf (u :: bs)) (h' : c.IsUnionOf (u :: bs)) : b = c := by
  have hkind : b.kind = c.kind := (h.kind u (by simp)).symm.trans (h'.kind u (by simp))
  have hfields := h.fields.trans h'.fields.symm
  have hinputs := h.inputFields.trans h'.inputFields.symm
  have hvalues := h.enumValues.trans h'.enumValues.symm
  have hinterfaces := h.interfaces.trans h'.interfaces.symm
  have hmembers := h.members.trans h'.members.symm
  cases b <;> cases c <;> cases hkind
  case scalar => rfl
  case object => rw [Table.ext hfields, Distinct.ext hinterfaces]
  case interface => rw [Table.ext hfields, Distinct.ext hinterfaces]
  case union => rw [Distinct.ext hmembers]
  case enum => rw [Table.ext hvalues]
  case inputObject => rw [Table.ext hinputs]

end IsUnionOf

/-! ### A step -/

theorem isUnionOf_pair {b c r : TypeBody} (hb : b.kind = r.kind) (hc : c.kind = r.kind)
    (hfields : r.fieldEntries = firstEntries (b.fieldEntries ++ c.fieldEntries))
    (hinputs : r.inputFieldEntries = firstEntries (b.inputFieldEntries ++ c.inputFieldEntries))
    (hvalues : r.enumValueEntries = firstEntries (b.enumValueEntries ++ c.enumValueEntries))
    (hinterfaces : r.interfaceNames = (b.interfaceNames ++ c.interfaceNames).eraseDups)
    (hmembers : r.memberNames = (b.memberNames ++ c.memberNames).eraseDups) :
    r.IsUnionOf [b, c] :=
  ⟨by simp [hb, hc], by simp [hfields], by simp [hinputs], by simp [hvalues],
    by simp [hinterfaces], by simp [hmembers]⟩

theorem unite?_isUnionOf {b c r : TypeBody} {differing : List Name}
    (h : b.unite? c = some (r, differing)) : r.IsUnionOf [b, c] := by
  unfold unite? at h
  split at h
  · cases h
    exact isUnionOf_pair rfl rfl (entries_uniteEntries _ _ _) rfl rfl (Distinct.toList_append _ _)
      rfl
  · cases h
    exact isUnionOf_pair rfl rfl (entries_uniteEntries _ _ _) rfl rfl (Distinct.toList_append _ _)
      rfl
  · cases h
    exact isUnionOf_pair rfl rfl rfl (entries_uniteEntries _ _ _) rfl rfl rfl
  · cases h

theorem combine?_isUnionOf {b c r : TypeBody} (h : b.combine? c = some r) :
    r.IsUnionOf [b, c] := by
  unfold combine? at h
  split at h
  · cases h
    exact isUnionOf_pair rfl rfl rfl rfl rfl rfl rfl
  · cases h
    exact isUnionOf_pair rfl rfl rfl rfl (entries_uniteTables _ _) rfl rfl
  · cases h
    exact isUnionOf_pair rfl rfl rfl rfl rfl rfl (Distinct.toList_append _ _)
  · obtain ⟨⟨body, differing⟩, hu, h⟩ := Option.bind_eq_some_iff.mp h
    split at h
    · cases h
      exact unite?_isUnionOf hu
    · cases h

end TypeBody

/-! ## Definitions -/

namespace TypeDefinition

/-- Whether a definition is that of several definitions written one after another, where what has
come before is dropped. -/
structure IsUnionOf (r first : TypeDefinition) (rest : List TypeDefinition) : Prop where
  name : r.name = first.name
  description : r.description = (first :: rest).findSome? TypeDefinition.description
  directives : r.directives = first.directives
    ++ ((rest.flatMap TypeDefinition.directives).filter fun x => x ∉ first.directives).eraseDups
  body : r.body.IsUnionOf ((first :: rest).map TypeDefinition.body)

theorem IsUnionOf.unique {r r' first : TypeDefinition} {rest : List TypeDefinition}
    (h : r.IsUnionOf first rest) (h' : r'.IsUnionOf first rest) : r = r' := by
  cases r
  cases r'
  rw [mk.injEq]
  exact ⟨h.name.trans h'.name.symm, h.description.trans h'.description.symm,
    h.directives.trans h'.directives.symm, h.body.unique h'.body⟩

/-- What is combined is the union of the definitions. -/
theorem combineAll?_isUnionOf {d r : TypeDefinition} {ds : List TypeDefinition}
    (h : combineAll? (d :: ds) = some r) : r.IsUnionOf d ds := by
  replace h : ds.foldlM combine? d = some r := h
  induction ds generalizing d with
  | nil =>
    cases h
    exact ⟨rfl, by cases hr : r.description <;> simp [hr], by simp, .self r.body⟩
  | cons e ds ih =>
    rw [List.foldlM_cons] at h
    obtain ⟨u, hu, h⟩ := Option.bind_eq_some_iff.mp h
    have hr := ih h
    obtain ⟨body, hb, rfl⟩ := combine?_eq_some hu
    refine ⟨hr.name, ?_, ?_, .cons (TypeBody.combine?_isUnionOf hb) hr.body⟩
    · rw [hr.description, List.findSome?_cons, List.findSome?_cons]
      cases hd : d.description <;> simp [absorb, hd, List.findSome?_cons]
    · rw [hr.directives, ← appendDirectives_eq, ← appendDirectives_eq, List.flatMap_cons]
      exact List.foldl_append.symm

end TypeDefinition

/-! ## Agreement -/

namespace TypeBody

variable {b c : TypeBody} {n : Name}

/-- Whether two bodies that both have a field agree on it: on its signature, or on its type if it
is an input field. -/
def AgreesOn (b c : TypeBody) (n : Name) : Prop :=
  (∀ f g, b.field? n = some f → c.field? n = some g → f.sameSignature g = true) ∧
  ∀ v w, b.inputField? n = some v → c.inputField? n = some w → v.type = w.type

theorem agreesOn_iff (h : c.kind = b.kind) :
    b.AgreesOn c n ↔ ∀ x y, b.shape? n = some x → c.shape? n = some y → x = y := by
  have hread {α : Type} (read : α → FieldShape) (o o' : Option α) :
      (∀ f g, o = some f → o' = some g → read f = read g) ↔
        ∀ x y, o.map read = some x → o'.map read = some y → x = y := by
    cases o <;> cases o' <;> simp
  unfold AgreesOn
  simp only [Field.sameSignature_iff]
  cases b <;> cases c <;> cases h
  case object => simpa [shape?] using hread Field.shape _ _
  case interface => simpa [shape?] using hread Field.shape _ _
  case inputObject =>
    have hinput := hread (fun v : InputValue => FieldShape.input v.type)
    simp only [FieldShape.input.injEq] at hinput
    simpa [shape?] using hinput _ _
  all_goals simp [shape?]

/-- A field of bodies of one kind is contested when two of them do not agree on it. -/
theorem contested_iff {bs : List TypeBody} {k : TypeKind} (hk : ∀ b ∈ bs, b.kind = k) :
    Contested bs n ↔ ∃ b ∈ bs, ∃ c ∈ bs, ¬ b.AgreesOn c n := by
  constructor
  · rintro ⟨x, y, hxy, ⟨b, hb, hx⟩, c, hc, hy⟩
    refine ⟨b, hb, c, hc, fun h => hxy ?_⟩
    exact (agreesOn_iff ((hk c hc).trans (hk b hb).symm)).mp h x y hx hy
  · rintro ⟨b, hb, c, hc, h⟩
    rw [agreesOn_iff ((hk c hc).trans (hk b hb).symm)] at h
    push Not at h
    obtain ⟨x, y, hx, hy, hxy⟩ := h
    exact ⟨x, y, hxy, ⟨b, hb, hx⟩, c, hc, hy⟩

end TypeBody

/-! ## Handlers -/

namespace Handler

variable {type : Name} {c : Candidate} {cs : List Candidate} {k : TypeKind}

/-- Whether any two definitions that have a field agree on it. -/
def AgreeOn (cs : List Candidate) (n : Name) : Prop :=
  ∀ c ∈ cs, ∀ e ∈ cs, c.definition.body.AgreesOn e.definition.body n

theorem contested_iff_not_agreeOn (hk : ∀ e ∈ cs, e.definition.kind = k) {n : Name} :
    TypeBody.Contested (cs.map (·.definition.body)) n ↔ ¬ AgreeOn cs n := by
  have hbodies : ∀ b ∈ cs.map (·.definition.body), b.kind = k := by
    intro b hb
    obtain ⟨e, he, rfl⟩ := List.mem_map.mp hb
    exact hk e he
  rw [TypeBody.contested_iff hbodies]
  simp [AgreeOn]

/-- A conflict about a field lists the schemas that have the field, in their order, with what
they say of it. -/
theorem fieldConflict_eq (hs : (cs.map Candidate.schema).Nodup) (n : Name) :
    ∃ signatures : Table String String,
      fieldConflict type cs n = .fieldDiffers type n signatures ∧
      signatures.keys = (cs.filter (·.definition.hasField n)).map Candidate.schema ∧
      signatures.values.map some
        = (cs.filter (·.definition.hasField n)).map (·.definition.body.signatureOf n) := by
  have hlisted : ∀ cs : List Candidate,
      (cs.filterMap fun c => (c.definition.body.signatureOf n).map (c.schema, ·)).map
        (fun e => (e.1, some e.2))
      = (cs.filter (·.definition.hasField n)).map
        fun c => (c.schema, c.definition.body.signatureOf n) := by
    intro cs
    induction cs with
    | nil => rfl
    | cons c cs ih =>
      have hfield : c.definition.hasField n = (c.definition.body.signatureOf n).isSome :=
        TypeBody.signatureOf_isSome.symm
      rw [List.filterMap_cons, List.filter_cons, hfield]
      cases h : c.definition.body.signatureOf n <;> simp [h, ih]
  have hkeys := congrArg (List.map Prod.fst) (hlisted cs)
  have hvalues := congrArg (List.map Prod.snd) (hlisted cs)
  simp only [List.map_map, Function.comp_def] at hkeys hvalues
  have hnodup : ((cs.filterMap fun c =>
      (c.definition.body.signatureOf n).map (c.schema, ·)).map Prod.fst).Nodup :=
    hkeys ▸ hs.sublist (List.filter_sublist.map _)
  refine ⟨_, rfl, ?_, ?_⟩
  · rw [Table.keys, Table.entries_ofList_of_nodup hnodup]
    exact hkeys
  · rw [Table.values, Table.entries_ofList_of_nodup hnodup, List.map_map]
    exact hvalues

/-- A union of fields fails with one conflict for each field on which two definitions do not
agree. -/
theorem exists_fieldUnion_iff (type : Name) (hf : k.HasFields)
    (hk : ∀ e ∈ c :: cs, e.definition.kind = k) :
    ((∃ r, fieldUnion type (c :: cs) = .ok r) ↔ ∀ n, AgreeOn (c :: cs) n) ∧
      ∀ conflict, fieldUnion type (c :: cs) = .error conflict →
        ∃ ns : List Name, ns.Nodup ∧ (∀ n, n ∈ ns ↔ ¬ AgreeOn (c :: cs) n) ∧
          conflict.flatten = ns.map (fieldConflict type (c :: cs)) := by
  obtain ⟨ns, hns, hmem⟩ := exists_conflictsOf_fieldUnion type hf (List.cons_ne_nil c cs) hk
  simp only [contested_iff_not_agreeOn hk] at hmem
  cases h : fieldUnion type (c :: cs) with
  | ok r =>
    rw [h] at hns
    have hnil : ns.toList = [] := List.map_eq_nil_iff.mp hns.symm
    refine ⟨iff_of_true ⟨r, rfl⟩ fun n => ?_, fun _ hc => nomatch hc⟩
    by_contra hn
    exact List.not_mem_nil (hnil ▸ (hmem n).mpr hn)
  | error conflict =>
    rw [h] at hns
    have hflatten : conflict.flatten = ns.toList.map (fieldConflict type (c :: cs)) := hns
    refine ⟨iff_of_false (fun ⟨r, hr⟩ => nomatch hr) fun hall => ?_, ?_⟩
    · have hnil : ns.toList = [] :=
        List.eq_nil_iff_forall_not_mem.mpr fun n hn => (hmem n).mp hn (hall n)
      exact (fieldUnion_reports h).not_isSilent
        (by rw [Conflict.IsSilent, hflatten, hnil, List.map_nil])
    · rintro _ ⟨⟩
      exact ⟨ns.toList, ns.nodup, hmem, hflatten⟩

/-- An outcome that is known to be the union of the definitions is the only one. -/
theorem eq_ok_iff_isUnionOf {outcome : Except Conflict TypeDefinition} {d : TypeDefinition}
    {ds : List TypeDefinition} (hexists : ∃ r, outcome = .ok r)
    (hunion : ∀ r, outcome = .ok r → r.IsUnionOf d ds) (r : TypeDefinition) :
    outcome = .ok r ↔ r.IsUnionOf d ds := by
  obtain ⟨r', rfl⟩ := hexists
  exact ⟨hunion r, fun h => by rw [h.unique (hunion r' rfl)]⟩

/-- The handlers of enums and unions give the union of the definitions. -/
theorem exists_eq_ok_of_combineAll? {handler : Handler} (h : k = .enum ∨ k = .union)
    (hk : ∀ e ∈ c :: cs, e.definition.kind = k)
    (hok : ∀ r, handler type (c :: cs) = .ok r ↔
      TypeDefinition.combineAll? ((c :: cs).map Candidate.definition) = some r) :
    (∃ r, handler type (c :: cs) = .ok r) ∧ ∀ r, handler type (c :: cs) = .ok r ↔
      r.IsUnionOf c.definition (cs.map Candidate.definition) := by
  have hkinds : ∀ d ∈ (c :: cs).map Candidate.definition, d.kind = k := by simpa using hk
  obtain ⟨r, hr⟩ := exists_combineAll? h (by simp) hkinds
  have hexists : ∃ r, handler type (c :: cs) = .ok r := ⟨r, (hok r).mpr hr⟩
  exact ⟨hexists, eq_ok_iff_isUnionOf hexists fun r hr =>
    TypeDefinition.combineAll?_isUnionOf ((hok r).mp hr)⟩

/-- What the built-in handlers for types with parts make of definitions of one kind that come from
different schemas. -/
theorem unions_firstWins (type : Name) (hk : ∀ e ∈ c :: cs, e.definition.kind = k)
    (hs : ((c :: cs).map Candidate.schema).Nodup) :
    (k.HasFields →
      ((∃ r, fieldUnion type (c :: cs) = .ok r) ↔ ∀ n, AgreeOn (c :: cs) n) ∧
      (∀ r, fieldUnion type (c :: cs) = .ok r ↔
        (∀ n, AgreeOn (c :: cs) n) ∧
          r.IsUnionOf c.definition (cs.map Candidate.definition)) ∧
      ∀ conflict, fieldUnion type (c :: cs) = .error conflict →
        ∃ ns : List Name, ns.Nodup ∧ (∀ n, n ∈ ns ↔ ¬ AgreeOn (c :: cs) n) ∧
          conflict.flatten = ns.map (fieldConflict type (c :: cs))) ∧
    (∀ n, ∃ signatures : Table String String,
      fieldConflict type (c :: cs) n = .fieldDiffers type n signatures ∧
      signatures.keys = ((c :: cs).filter (·.definition.hasField n)).map Candidate.schema ∧
      signatures.values.map some
        = ((c :: cs).filter (·.definition.hasField n)).map (·.definition.body.signatureOf n)) ∧
    (k = .enum → (∃ r, enumValueUnion type (c :: cs) = .ok r) ∧
      ∀ r, enumValueUnion type (c :: cs) = .ok r ↔
        r.IsUnionOf c.definition (cs.map Candidate.definition)) ∧
    (k = .union → (∃ r, memberUnion type (c :: cs) = .ok r) ∧
      ∀ r, memberUnion type (c :: cs) = .ok r ↔
        r.IsUnionOf c.definition (cs.map Candidate.definition)) := by
  refine ⟨fun hf => ?_, fieldConflict_eq hs, ?_, ?_⟩
  · obtain ⟨hexists, hconflicts⟩ := exists_fieldUnion_iff type hf hk
    have hunion (r : TypeDefinition) (hr : fieldUnion type (c :: cs) = .ok r) :
        r.IsUnionOf c.definition (cs.map Candidate.definition) :=
      TypeDefinition.combineAll?_isUnionOf (combineAll?_of_fieldUnion hr)
    refine ⟨hexists, fun r => ⟨fun hr => ⟨hexists.mp ⟨r, hr⟩, hunion r hr⟩, ?_⟩, hconflicts⟩
    rintro ⟨hagree, hr⟩
    exact (eq_ok_iff_isUnionOf (hexists.mpr hagree) hunion r).mpr hr
  · rintro rfl
    exact exists_eq_ok_of_combineAll? (Or.inl rfl) hk fun r => enumValueUnion_eq_ok_iff hk
  · rintro rfl
    exact exists_eq_ok_of_combineAll? (Or.inr rfl) hk fun r => memberUnion_eq_ok_iff hk

/-- A schema's definition of an object type with the given fields. -/
def quay (schema : String) (fields : List (Name × TypeRef)) : Candidate :=
  let entries := fields.map fun f => (f.1, Field.ofType f.1 f.2)
  ⟨schema, ⟨⟨"Quay", by decide⟩, none, [], .object .empty (.ofList entries)⟩⟩

/-- A field that only a middle and a last definition have is taken from the middle one, or is what
the two do not agree on. -/
theorem unions_firstWins_quays :
    let type : Name := ⟨"Quay", by decide⟩
    let depth : Name := ⟨"depth", by decide⟩
    let metres : Name × TypeRef := (depth, .named ⟨"Metre", by decide⟩)
    let fathoms : Name × TypeRef := (depth, .named ⟨"Fathom", by decide⟩)
    let cs := [quay "north" [], quay "middle" [metres], quay "south" [metres]]
    let cs' := [quay "north" [], quay "middle" [metres], quay "south" [fathoms]]
    ((∀ e ∈ cs, e.definition.kind = .object) ∧ (cs.map Candidate.schema).Nodup) ∧
    ((∀ e ∈ cs', e.definition.kind = .object) ∧ (cs'.map Candidate.schema).Nodup) ∧
    ((∀ n, AgreeOn cs n) ∧ ∃ r, fieldUnion type cs = .ok r ∧
      r.body.fieldEntries = firstEntries (cs.flatMap (·.definition.body.fieldEntries))) ∧
    (¬ ∀ n, AgreeOn cs' n) ∧ fieldUnion type cs' = .error (fieldConflict type cs' depth) := by
  intro type depth metres fathoms cs cs'
  have hk : ∀ e ∈ cs, e.definition.kind = .object := by decide
  have hk' : ∀ e ∈ cs', e.definition.kind = .object := by decide
  have hs : (cs.map Candidate.schema).Nodup := by decide
  have hs' : (cs'.map Candidate.schema).Nodup := by decide
  obtain ⟨hexists, hunion, -⟩ := (unions_firstWins type hk hs).1 (Or.inl rfl)
  obtain ⟨hexists', -, -⟩ := (unions_firstWins type hk' hs').1 (Or.inl rfl)
  refine ⟨⟨hk, hs⟩, ⟨hk', hs'⟩, ⟨hexists.mp ⟨_, rfl⟩, _, rfl, ?_⟩, fun hagree => ?_, rfl⟩
  · exact ((hunion _).mp rfl).2.body.fields
  · obtain ⟨r, hr⟩ := hexists'.mpr hagree
    cases hr

end Handler

end SchemaWeave
