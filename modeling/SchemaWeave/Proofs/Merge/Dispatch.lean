import SchemaWeave.Proofs.Merge.Output

/-!
# Types that a merge leaves out

A merge knows of a failure only what the failure adds to the list of conflicts. A handler that
fails with an empty list of conflicts adds nothing: the merge goes on, and succeeds without the
type if nothing else fails. That is the only way in which a type is left out.
-/

namespace SchemaWeave

variable (registry : Registry) (schemas : List Schema)

/-! ## Dispatch -/

/-- The handler that a merge asks about a type: none when there is nothing to combine, or when
the definitions are of several kinds. -/
def dispatched? (type : Name) : Option Handler :=
  match candidates schemas type with
  | first :: second :: rest =>
    let kind := first.definition.kind
    if (first :: second :: rest).any (fun c => c.definition.kind ≠ kind) then none
    else if (mergedFrame schemas).isRootType type then some Handler.fieldUnion
    else registry.handlerFor kind
  | _ => none

/-- Whether the handler that is asked about a type fails without naming a conflict. -/
def SilentlyRefused (type : Name) : Prop :=
  ∃ handler conflict, dispatched? registry schemas type = some handler ∧
    handler type (candidates schemas type) = .error conflict ∧ conflict.IsSilent

/-- Whether no type is lost: a merge that succeeds has the types that some schema defines, and
no handler that is asked fails without the merge failing. -/
def NoTypeLost : Prop :=
  (∀ m, mergeSchemas registry schemas = .ok m →
    ∀ n, n ∈ m.schema.types.keys ↔ ∃ s ∈ schemas, n ∈ s.types.keys) ∧
  ∀ type handler conflict, dispatched? registry schemas type = some handler →
    handler type (candidates schemas type) = .error conflict →
    ∃ conflicts, mergeSchemas registry schemas = .error conflicts

variable {registry schemas}

theorem mergedType_of_dispatched? {type : Name} {handler : Handler} {conflict : Conflict}
    (hd : dispatched? registry schemas type = some handler)
    (he : handler type (candidates schemas type) = .error conflict) :
    mergedType registry schemas type = .error conflict := by
  unfold dispatched? at hd
  unfold mergedType
  generalize candidates schemas type = cs at hd he
  split at hd
  · next first second rest =>
    unfold mergeType
    dsimp only at hd ⊢
    split at hd
    · cases hd
    · next hkinds =>
      rw [if_neg hkinds]
      split at hd
      · next hroot =>
        cases hd
        rw [if_pos hroot]
        exact he
      · next hroot =>
        rw [if_neg hroot, hd]
        dsimp only
        rw [he]
        rfl
  · cases hd

/-- A group whose failure is silent has been refused by its handler. -/
theorem silentlyRefused_of_mergedType {type : Name} {conflict : Conflict}
    (h : mergedType registry schemas type = .error conflict) (hs : conflict.IsSilent) :
    SilentlyRefused registry schemas type := by
  obtain ⟨first, second, rest, hcs, hk, hroot, handler, hh, he⟩ :=
    (mergeType_isReport_or_asked h).resolve_left fun hreport => hreport.not_isSilent hs
  have hany : ¬ (first :: second :: rest).any
      (fun c => c.definition.kind ≠ first.definition.kind) = true := by
    rw [← hcs]
    simpa using hk
  refine ⟨handler, conflict, ?_, he, hs⟩
  unfold dispatched?
  rw [hcs]
  dsimp only
  rw [if_neg hany, if_neg (by simp [hroot]), hh]

/-! ## Traces of failures -/

theorem silentlyRefused_iff {type : Name} :
    SilentlyRefused registry schemas type ↔
      ∃ conflict, mergedType registry schemas type = .error conflict ∧ conflict.IsSilent := by
  constructor
  · rintro ⟨handler, conflict, hd, he, hs⟩
    exact ⟨conflict, mergedType_of_dispatched? hd he, hs⟩
  · rintro ⟨conflict, he, hs⟩
    exact silentlyRefused_of_mergedType he hs

/-- A merge that succeeds has every type that some schema defines, except for those that were
refused silently. -/
theorem mem_keys_of_mergeSchemas (hk : ∀ s ∈ schemas, s.TypesKeyed) {m : Merged}
    (h : mergeSchemas registry schemas = .ok m) {type : Name} :
    type ∈ m.schema.types.keys ↔
      (∃ s ∈ schemas, type ∈ s.types.keys) ∧ ¬ SilentlyRefused registry schemas type := by
  obtain ⟨hc, rfl⟩ := (mergeSchemas_eq_ok_iff hk).mp h
  have htypes := (mergeConflicts_eq_nil_iff.mp hc).1
  rw [← mem_typeNames, silentlyRefused_iff]
  constructor
  · intro hm
    obtain ⟨d, hd⟩ := Table.exists_get?_of_mem_keys hm
    rw [mergeOutput_get?, mergedType?_eq_some_iff] at hd
    refine ⟨mem_typeNames_of_mergedType hd, ?_⟩
    rintro ⟨conflict, he, -⟩
    rw [hd] at he
    cases he
  · rintro ⟨hn, hsilent⟩
    rcases typeConflicts_eq_nil_iff.mp (htypes type hn) with ⟨d, hd⟩ | ⟨conflict, he, hs⟩
    · exact Table.mem_keys_of_get? ((mergeOutput_get? type).trans (mergedType?_eq_some_iff.mpr hd))
    · exact absurd ⟨conflict, he, hs⟩ hsilent

/-- A failure that names a conflict makes the merge fail. -/
theorem mergeSchemas_eq_error (hk : ∀ s ∈ schemas, s.TypesKeyed) {type : Name} {handler : Handler}
    {conflict : Conflict} (hd : dispatched? registry schemas type = some handler)
    (he : handler type (candidates schemas type) = .error conflict) (hs : ¬ conflict.IsSilent) :
    ∃ conflicts, mergeSchemas registry schemas = .error conflicts := by
  cases hm : mergeSchemas registry schemas with
  | error conflicts => exact ⟨conflicts, rfl⟩
  | ok m =>
    have hn : type ∈ (typeNames schemas).toList := by
      rw [← candidates_ne_nil_iff]
      intro hnil
      rw [dispatched?, hnil] at hd
      cases hd
    have hc := ((mergeSchemas_eq_ok_iff hk).mp hm).1
    have hnone := (mergeConflicts_eq_nil_iff.mp hc).1 type hn
    rw [typeConflicts, mergedType_of_dispatched? hd he] at hnone
    exact absurd hnone hs

/-- No type is lost exactly when the merge fails or no type is refused silently. Where the merge
succeeds, the types that were refused silently are the ones that are missing. -/
theorem noTypeLost_iff (hk : ∀ s ∈ schemas, s.TypesKeyed) :
    (NoTypeLost registry schemas ↔
      (∃ conflicts, mergeSchemas registry schemas = .error conflicts) ∨
        ∀ type, ¬ SilentlyRefused registry schemas type) ∧
    ∀ m, mergeSchemas registry schemas = .ok m → ∀ type,
      type ∈ m.schema.types.keys ↔
        (∃ s ∈ schemas, type ∈ s.types.keys) ∧ ¬ SilentlyRefused registry schemas type := by
  refine ⟨⟨?_, ?_⟩, fun m hm type => mem_keys_of_mergeSchemas hk hm⟩
  · rintro ⟨-, hfail⟩
    -- a silent refusal is a failure too, and every failure has to make the merge fail
    by_cases h : ∃ type, SilentlyRefused registry schemas type
    · obtain ⟨type, handler, conflict, hd, he, -⟩ := h
      exact Or.inl (hfail type handler conflict hd he)
    · exact Or.inr (not_exists.mp h)
  · rintro (⟨conflicts, hc⟩ | hsilent)
    · refine ⟨fun m hm => ?_, fun _ _ _ _ _ => ⟨conflicts, hc⟩⟩
      rw [hc] at hm
      cases hm
    · refine ⟨fun m hm type => ?_, fun type handler conflict hd he => ?_⟩
      · rw [mem_keys_of_mergeSchemas hk hm]
        exact and_iff_left (hsilent type)
      · exact mergeSchemas_eq_error hk hd he fun hs => hsilent type ⟨handler, conflict, hd, he, hs⟩

/-! ## The built-in handlers -/

theorem builtIn_not_silentlyRefused (schemas : List Schema) (type : Name) :
    ¬ SilentlyRefused .builtIn schemas type := by
  rintro ⟨handler, conflict, hd, he, hs⟩
  exact (mergeType_builtIn_isReport (mergedType_of_dispatched? hd he)).not_isSilent hs

/-! ## A handler that says nothing -/

/-- Two schemas that define an enum of the same name. -/
def enumPair : List Schema :=
  let e : Name := ⟨"E", by decide⟩
  let a : Name := ⟨"A", by decide⟩
  let d : TypeDefinition := ⟨e, none, [], .enum (.ofList [(a, ⟨a, none, []⟩)])⟩
  [{ Schema.empty "A" with types := .ofList [(e, d)] },
    { Schema.empty "B" with types := .ofList [(e, d)] }]

/-- The built-in handlers, and one for enums that fails with no conflict. -/
def muteOnEnums : Registry := Registry.builtIn.register .enum 0 fun _ _ => .error (.ofList [])

theorem noTypeLost_enumPair :
    (∀ s ∈ enumPair, s.TypesKeyed) ∧ NoTypeLost .builtIn enumPair :=
  ⟨by decide, (noTypeLost_iff (by decide)).1.mpr (Or.inr (builtIn_not_silentlyRefused enumPair))⟩

/-- With a handler that fails silently, the enum is lost and the merge succeeds. -/
theorem not_noTypeLost_muteOnEnums :
    ¬ ∀ registry schemas, (∀ s ∈ schemas, s.TypesKeyed) → NoTypeLost registry schemas := by
  intro h
  have hlost := (h muteOnEnums enumPair (by decide)).2 ⟨"E", by decide⟩
    (fun _ _ => .error (.ofList [])) (.ofList []) rfl rfl
  obtain ⟨conflicts, hc⟩ := hlost
  have hok : (mergeSchemas muteOnEnums enumPair).isOk = true := by decide
  rw [hc] at hok
  cases hok

end SchemaWeave
