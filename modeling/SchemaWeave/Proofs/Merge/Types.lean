import SchemaWeave.Proofs.Merge.Combine

/-!
# One type of a merge

What `mergeType` makes of the candidates for a type. Under any registry a result carries the
name that was asked for. Under the built-in handlers the result is what combining the
definitions one after another gives, and a failure always names a conflict.
-/

namespace SchemaWeave

variable {registry : Registry} {frame : Schema} {type : Name} {cs : List Candidate}
  {d : TypeDefinition}

/-! ## Any registry -/

theorem checkResult_eq_ok_iff {kind : TypeKind} {e : TypeDefinition} :
    checkResult type kind e = .ok d ↔ e = d ∧ e.name = type ∧ e.kind = kind := by
  unfold checkResult
  by_cases hn : e.name = type <;> by_cases hk : e.kind = kind <;> simp [hn, hk]

theorem exists_breach_of_checkResult {kind : TypeKind} {conflict : Conflict}
    (h : checkResult type kind d = .error conflict) : ∃ b, conflict = .breach type b := by
  unfold checkResult at h
  split at h
  · cases h
    exact ⟨_, rfl⟩
  · split at h
    · cases h
      exact ⟨_, rfl⟩
    · cases h

/-- Only the entry points of the schema decide how a type is merged. -/
theorem mergeType_congr {frame' : Schema} (h : frame.roots = frame'.roots) :
    mergeType registry frame type cs = mergeType registry frame' type cs := by
  have hroot : frame.isRootType type = frame'.isRootType type := by
    unfold Schema.isRootType
    rw [h]
  unfold mergeType
  rw [hroot]

/-- What a merged type can come from: one definition, a union of fields, or the handler for
the kind of all definitions. -/
theorem mergeType_eq_ok (h : mergeType registry frame type cs = .ok d) :
    cs.map Candidate.definition = [d] ∨ Handler.fieldUnion type cs = .ok d ∨
      ∃ kind handler, (∀ c ∈ cs, c.definition.kind = kind) ∧
        registry.handlerFor kind = some handler ∧ handler type cs = .ok d ∧
        d.name = type ∧ d.kind = kind := by
  unfold mergeType at h
  split at h
  · cases h
  · cases h
    exact Or.inl rfl
  · next first second rest =>
    generalize first :: second :: rest = cs at h ⊢
    dsimp only at h
    split at h
    · cases h
    · next hany =>
      have hk : ∀ c ∈ cs, c.definition.kind = first.definition.kind := by
        simpa using hany
      split at h
      · exact Or.inr (Or.inl h)
      · split at h
        · cases h
        · next handler hh =>
          obtain ⟨e, he, hcheck⟩ := bind_eq_ok_iff.mp h
          obtain ⟨rfl, hname, hkind⟩ := checkResult_eq_ok_iff.mp hcheck
          exact Or.inr (Or.inr ⟨_, handler, hk, hh, he, hname, hkind⟩)

/-- What a failure of a type can come from: the merge itself finds something wrong, or what is
asked to combine the definitions fails, which is a union of fields or the handler for their
kind. -/
theorem mergeType_error_cases {conflict : Conflict}
    (h : mergeType registry frame type cs = .error conflict) :
    (∃ schemas reason, conflict = .rejected type schemas reason) ∨
    conflict = Candidate.kindsDiffer type cs ∨ (∃ b, conflict = .breach type b) ∨
    ∃ first second rest, cs = first :: second :: rest ∧
      (∀ c ∈ cs, c.definition.kind = first.definition.kind) ∧
      ((frame.isRootType type = true ∧ Handler.fieldUnion type cs = .error conflict) ∨
        (frame.isRootType type = false ∧ ∃ handler,
          registry.handlerFor first.definition.kind = some handler ∧
          handler type cs = .error conflict)) := by
  unfold mergeType at h
  split at h
  · cases h
    exact Or.inl ⟨_, _, rfl⟩
  · cases h
  · next first second rest =>
    generalize hcs : first :: second :: rest = cs at h
    dsimp only at h
    split at h
    · cases h
      exact Or.inr (Or.inl rfl)
    · next hany =>
      have hk : ∀ c ∈ cs, c.definition.kind = first.definition.kind := by
        simpa using hany
      split at h
      · next hroot =>
        exact Or.inr (Or.inr (Or.inr ⟨first, second, rest, hcs.symm, hk, Or.inl ⟨hroot, h⟩⟩))
      · next hroot =>
        split at h
        · cases h
          exact Or.inl ⟨_, _, rfl⟩
        · next handler hh =>
          -- a result that breaks its contract is a conflict of its own
          cases hr : handler type cs with
          | error e =>
            rw [hr] at h
            cases h
            refine Or.inr (Or.inr (Or.inr ⟨first, second, rest, hcs.symm, hk, Or.inr ⟨?_, ?_⟩⟩))
            · simpa using hroot
            · exact ⟨handler, hh, hr⟩
          | ok e =>
            rw [hr] at h
            exact Or.inr (Or.inr (Or.inl (exists_breach_of_checkResult h)))

/-- Only a handler fails without naming a conflict: what the merge itself finds wrong is always
named. -/
theorem mergeType_isReport_or_asked {conflict : Conflict}
    (h : mergeType registry frame type cs = .error conflict) :
    conflict.IsReport ∨
    ∃ first second rest, cs = first :: second :: rest ∧
      (∀ c ∈ cs, c.definition.kind = first.definition.kind) ∧ frame.isRootType type = false ∧
      ∃ handler, registry.handlerFor first.definition.kind = some handler ∧
        handler type cs = .error conflict := by
  rcases mergeType_error_cases h with ⟨_, _, rfl⟩ | rfl | ⟨_, rfl⟩ |
    ⟨first, second, rest, hcs, hk, ⟨-, he⟩ | hasked⟩
  · exact Or.inl (.of_single trivial)
  · exact Or.inl (.of_single trivial)
  · exact Or.inl (.of_single trivial)
  · exact Or.inl (Handler.fieldUnion_reports he)
  · exact Or.inr ⟨first, second, rest, hcs, hk, hasked⟩

theorem mergeType_name (h : mergeType registry frame type cs = .ok d)
    (hn : ∀ c ∈ cs, c.definition.name = type) : d.name = type := by
  rcases mergeType_eq_ok h with hd | hd | ⟨kind, handler, -, -, -, hname, -⟩
  · obtain ⟨c, hc, rfl⟩ := List.mem_map.mp (hd ▸ List.mem_singleton_self d)
    exact hn c hc
  · exact Handler.fieldUnion_name hd hn
  · exact hname

/-! ## The built-in handlers -/

/-- For each kind there is a built-in handler, and it does what `combineAll?` says. -/
theorem handlerFor_builtIn (type : Name) {k : TypeKind}
    (hk : ∀ c ∈ cs, c.definition.kind = k) :
    ∃ handler, Registry.builtIn.handlerFor k = some handler ∧
      (∀ d, handler type cs = .ok d ↔
        TypeDefinition.combineAll? (cs.map Candidate.definition) = some d) ∧
      ∀ conflict, handler type cs = .error conflict → conflict.IsReport := by
  cases k with
  | scalar =>
    exact ⟨_, rfl, fun _ => Handler.identicalScalar_eq_ok_iff hk,
      fun _ => Handler.identicalScalar_reports⟩
  | object =>
    exact ⟨_, rfl, fun _ => Handler.fieldUnion_eq_ok_iff fun c hc => Or.inl (hk c hc),
      fun _ => Handler.fieldUnion_reports⟩
  | interface =>
    exact ⟨_, rfl, fun _ => Handler.fieldUnion_eq_ok_iff fun c hc => Or.inr (Or.inl (hk c hc)),
      fun _ => Handler.fieldUnion_reports⟩
  | union =>
    exact ⟨_, rfl, fun _ => Handler.memberUnion_eq_ok_iff hk,
      fun _ => Handler.memberUnion_reports⟩
  | enum =>
    exact ⟨_, rfl, fun _ => Handler.enumValueUnion_eq_ok_iff hk,
      fun _ => Handler.enumValueUnion_reports⟩
  | inputObject =>
    exact ⟨_, rfl, fun _ => Handler.fieldUnion_eq_ok_iff fun c hc => Or.inr (Or.inr (hk c hc)),
      fun _ => Handler.fieldUnion_reports⟩

/-- Under the built-in handlers the result for a type is what combining its definitions one
after another gives, as long as the type behind an entry point is an object type somewhere. -/
theorem mergeType_builtIn_eq_ok_iff (hn : ∀ c ∈ cs, c.definition.name = type)
    (hroot : frame.isRootType type → ∃ c ∈ cs, c.definition.kind = .object) :
    mergeType .builtIn frame type cs = .ok d ↔
      TypeDefinition.combineAll? (cs.map Candidate.definition) = some d := by
  match cs with
  | [] => simp [mergeType, TypeDefinition.combineAll?]
  | [single] => simp [mergeType, TypeDefinition.combineAll?, pure]
  | first :: second :: rest =>
    rw [mergeType]
    generalize hcs : first :: second :: rest = cs at hn hroot ⊢
    have hfirst : first ∈ cs := by simp [← hcs]
    split
    · next hany =>
      obtain ⟨c, hc, hne⟩ := List.any_eq_true.mp hany
      refine iff_of_false (by simp) fun h => ?_
      have hkind := TypeDefinition.combineAll?_kind h
      have hck : c.definition.kind = first.definition.kind :=
        (hkind _ (List.mem_map_of_mem hc)).trans (hkind _ (List.mem_map_of_mem hfirst)).symm
      simp [hck] at hne
    · next hany =>
      have hk : ∀ c ∈ cs, c.definition.kind = first.definition.kind := by
        simpa using hany
      split
      · next hr =>
        obtain ⟨o, ho, hobj⟩ := hroot hr
        -- the candidates are of one kind, so all of them are object types
        refine Handler.fieldUnion_eq_ok_iff fun c hc => Or.inl ?_
        rw [hk c hc, ← hk o ho, hobj]
      · obtain ⟨handler, hh, hok, -⟩ := handlerFor_builtIn type hk
        rw [hh]
        show (handler type cs >>= checkResult type first.definition.kind) = .ok d ↔ _
        rw [bind_eq_ok_iff]
        simp only [hok, checkResult_eq_ok_iff]
        constructor
        · rintro ⟨e, he, rfl, -, -⟩
          exact he
        · intro h
          refine ⟨d, h, rfl, TypeDefinition.combineAll?_name h ?_, ?_⟩
          · intro e he
            obtain ⟨c, hc, rfl⟩ := List.mem_map.mp he
            exact hn c hc
          · exact (TypeDefinition.combineAll?_kind h _ (List.mem_map_of_mem hfirst)).symm

/-- Under the built-in handlers a type is merged to what combining its definitions gives. -/
theorem combineAll?_of_mergeType (h : mergeType .builtIn frame type cs = .ok d) :
    TypeDefinition.combineAll? (cs.map Candidate.definition) = some d := by
  rcases mergeType_eq_ok h with hd | hd | ⟨kind, handler, hk, hh, hd, -, -⟩
  · rw [hd]
    rfl
  · exact Handler.combineAll?_of_fieldUnion hd
  · obtain ⟨handler', hh', hok, -⟩ := handlerFor_builtIn type hk
    rw [hh] at hh'
    cases hh'
    exact (hok d).mp hd

/-- Under the built-in handlers a merged type has only fields that one of its definitions
has. -/
theorem exists_hasField_of_mergeType (h : mergeType .builtIn frame type cs = .ok d) {f : Name}
    (hf : d.hasField f) : ∃ c ∈ cs, c.definition.hasField f := by
  have hcomb := combineAll?_of_mergeType h
  obtain ⟨e, he, hef⟩ := (TypeDefinition.hasField_combineAll?_iff hcomb).mp hf
  obtain ⟨c, hc, rfl⟩ := List.mem_map.mp he
  exact ⟨c, hc, hef⟩

/-- Under the built-in handlers every failure names a conflict. -/
theorem mergeType_builtIn_isReport {conflict : Conflict}
    (h : mergeType .builtIn frame type cs = .error conflict) : conflict.IsReport := by
  rcases mergeType_isReport_or_asked h with
    hreport | ⟨first, second, rest, -, hk, -, handler, hh, he⟩
  · exact hreport
  · obtain ⟨handler', hh', -, hreports⟩ := handlerFor_builtIn type hk
    rw [hh] at hh'
    cases hh'
    exact hreports conflict he

end SchemaWeave
