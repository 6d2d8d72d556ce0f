import Mathlib.Data.Set.List
import SchemaWeave.Proofs.Merge.Directives
import SchemaWeave.Proofs.Merge.FirstWins
import SchemaWeave.Proofs.Merge.Registry

/-!
# Conflicts that are put together

A handler puts the conflicts it finds together, and may put together again what it has from other
handlers. To take the whole apart is to look one level deep, which is enough for all that is built
so: `ofList` takes its parts apart before it puts them together, so below one level there are only
single conflicts, however the parts were built.

A merge takes the failure of each group apart. Its errors are the single conflicts of the failures,
group by group, with those about directives behind them.
-/

namespace SchemaWeave

/-! ## Trees of conflicts -/

namespace Conflict

/-- How a conflict is put together: it is a single one, or made of others. -/
inductive Aggregate where
  | single (conflict : Conflict) (isSingle : conflict.IsSingle)
  | group (parts : List Aggregate)

namespace Aggregate

mutual

/-- The conflict that is put together so. -/
def conflict : Aggregate → Conflict
  | single c _ => c
  | group parts => .ofList (conflicts parts)

def conflicts : List Aggregate → List Conflict
  | [] => []
  | t :: ts => conflict t :: conflicts ts

end

mutual

/-- The single conflicts in it, from left to right. -/
def leaves : Aggregate → List Conflict
  | single c _ => [c]
  | group parts => allLeaves parts

def allLeaves : List Aggregate → List Conflict
  | [] => []
  | t :: ts => leaves t ++ allLeaves ts

end

theorem conflict_group (parts : List Aggregate) :
    (group parts).conflict = .ofList (parts.map conflict) := by
  rw [conflict]
  congr 1
  induction parts with
  | nil => rfl
  | cons t ts ih => rw [conflicts, ih, List.map_cons]

theorem leaves_group (parts : List Aggregate) : (group parts).leaves = parts.flatMap leaves := by
  rw [leaves]
  induction parts with
  | nil => rfl
  | cons t ts ih => rw [allLeaves, ih, List.flatMap_cons]

/-- What a group has from its parts, every tree has. -/
@[elab_as_elim]
theorem induct {P : Aggregate → Prop} (single : ∀ c h, P (.single c h))
    (group : ∀ parts, (∀ t ∈ parts, P t) → P (.group parts)) : ∀ t, P t
  | .single c h => single c h
  | .group parts => group parts fun t _ => induct single group t

theorem isSingle_of_mem_leaves (t : Aggregate) : ∀ c ∈ t.leaves, c.IsSingle := by
  induction t using induct with
  | single c h =>
    intro x hx
    rw [leaves, List.mem_singleton] at hx
    exact hx ▸ h
  | group parts ih =>
    intro x hx
    rw [leaves_group] at hx
    obtain ⟨t, ht, hx⟩ := List.mem_flatMap.mp hx
    exact ih t ht x hx

/-- A conflict is taken apart into the leaves of its tree, of any depth and with empty groups. -/
theorem flatten_conflict (t : Aggregate) : t.conflict.flatten = t.leaves := by
  induction t using induct with
  | single c h => exact h.flatten_eq
  | group parts ih =>
    have hparts : (parts.map conflict).flatMap flatten = (group parts).leaves := by
      rw [List.flatMap_map, leaves_group, List.flatMap_congr ih]
    have hsingle := isSingle_of_mem_leaves (group parts)
    rw [← hparts] at hsingle
    rw [conflict_group, flatten_ofList hsingle, hparts]

theorem flatMap_flatten_conflict (ts : List Aggregate) :
    (ts.map conflict).flatMap flatten = ts.flatMap leaves := by
  rw [List.flatMap_map, List.flatMap_congr fun t _ => flatten_conflict t]

/-- Conflicts are put together to what their leaves are put together to. -/
theorem ofList_conflict (ts : List Aggregate) :
    ofList (ts.map conflict) = ofList (ts.flatMap leaves) := by
  have hsingle : ∀ c ∈ ts.flatMap leaves, c.IsSingle := by
    intro c hc
    obtain ⟨t, -, hc⟩ := List.mem_flatMap.mp hc
    exact isSingle_of_mem_leaves t c hc
  unfold ofList
  rw [flatMap_flatten_conflict, flatMap_flatten_of_single hsingle]

/-- What can be put together: single conflicts, where just one stands for itself. -/
theorem exists_conflict_eq_iff {c : Conflict} :
    (∃ t : Aggregate, t.conflict = c) ↔ (∀ x ∈ c.flatten, x.IsSingle) ∧ ofList c.flatten = c := by
  constructor
  · rintro ⟨t, rfl⟩
    rw [flatten_conflict]
    refine ⟨isSingle_of_mem_leaves t, ?_⟩
    cases t with
    | single c h => rw [leaves, h.ofList_eq, conflict]
    | group parts => rw [leaves_group, ← ofList_conflict, conflict_group]
  · rintro ⟨hsingle, heq⟩
    refine ⟨.group (c.flatten.pmap .single hsingle), ?_⟩
    rw [conflict_group, List.map_pmap, List.pmap_eq_self.mpr fun x hx => by rw [conflict], heq]

end Aggregate

theorem IsReport.exists_conflict_eq {c : Conflict} (h : c.IsReport) :
    ∃ t : Aggregate, t.conflict = c := by
  obtain ⟨cs, -, hsingle, rfl⟩ := h
  rw [Aggregate.exists_conflict_eq_iff, flatten_ofList_of_single hsingle]
  exact ⟨hsingle, rfl⟩

end Conflict

/-! ## Handlers -/

namespace Registry

variable {r : Registry}

/-- Whether handlers fail only with conflicts that are put together from single ones. -/
def FailsWithAggregates (r : Registry) : Prop :=
  ∀ x ∈ r.registrations, ∀ type cs conflict, x.handler type cs = .error conflict →
    ∃ t : Conflict.Aggregate, t.conflict = conflict

theorem builtIn_failsWithAggregates : builtIn.FailsWithAggregates := by
  intro x hx type cs conflict h
  refine Conflict.IsReport.exists_conflict_eq ?_
  simp only [builtIn, List.mem_cons, List.not_mem_nil, or_false] at hx
  rcases hx with rfl | rfl | rfl | rfl | rfl | rfl
  · exact Handler.fieldUnion_reports h
  · exact Handler.fieldUnion_reports h
  · exact Handler.fieldUnion_reports h
  · exact Handler.enumValueUnion_reports h
  · exact Handler.memberUnion_reports h
  · exact Handler.identicalScalar_reports h

theorem FailsWithAggregates.register (h : r.FailsWithAggregates) {kind : TypeKind}
    {priority : Int32} {handler : Handler}
    (hhandler : ∀ type cs conflict, handler type cs = .error conflict →
      ∃ t : Conflict.Aggregate, t.conflict = conflict) :
    (r.register kind priority handler).FailsWithAggregates := by
  intro x hx
  rcases List.mem_append.mp hx with hx | hx
  · exact h x hx
  · obtain rfl := List.mem_singleton.mp hx
    exact hhandler

end Registry

/-! ## Merges -/

section Merges

open Conflict

variable (registry : Registry) (schemas : List Schema)

/-- The failures of the groups, in the order in which the types first appear. -/
def groupFailures : List Conflict :=
  errorsOf ((schemas.flatMap (·.types.keys)).eraseDups.map (mergedType registry schemas))

/-- Whether a definition of a directive differs from the first one. -/
def DirectiveDisputed (directive : Name) : Prop :=
  ∃ first ∈ (directiveDefinitionsOf schemas directive).head?,
    ∃ d ∈ directiveDefinitionsOf schemas directive, d.sameShape first = false

instance (directive : Name) : Decidable (DirectiveDisputed schemas directive) :=
  inferInstanceAs (Decidable (∃ first ∈ (directiveDefinitionsOf schemas directive).head?,
    ∃ d ∈ directiveDefinitionsOf schemas directive, d.sameShape first = false))

/-- The conflict about a directive, between all schemas that define it. -/
def directiveDispute (directive : Name) : Conflict :=
  .directiveDiffers directive (.ofList ((directiveCandidates schemas directive).map Prod.fst))

variable {registry schemas}

theorem typeNames_toList :
    (typeNames schemas).toList = (schemas.flatMap (·.types.keys)).eraseDups :=
  Distinct.toList_append .empty _

theorem flatMap_typeConflicts (types : List Name) :
    types.flatMap (typeConflicts registry schemas)
      = (errorsOf (types.map (mergedType registry schemas))).flatMap flatten := by
  induction types with
  | nil => rfl
  | cons n types ih =>
    rw [List.flatMap_cons, ih, List.map_cons, typeConflicts]
    cases mergedType registry schemas n <;> rfl

theorem directiveConflicts_eq (directive : Name) :
    directiveConflicts schemas directive =
      if DirectiveDisputed schemas directive then [directiveDispute schemas directive] else [] := by
  have herror (x : Conflict) : mergedDirective schemas directive = .error x ↔
      DirectiveDisputed schemas directive ∧ x = directiveDispute schemas directive := by
    rw [mergedDirective, mergeDirective_eq_error_iff]
    simp only [DirectiveDisputed, directiveDispute, Option.mem_def, exists_and_left]
    rfl
  unfold directiveConflicts
  cases h : mergedDirective schemas directive with
  | ok d =>
    rw [if_neg fun hdisputed => ?_]
    rw [(herror _).mpr ⟨hdisputed, rfl⟩] at h
    cases h
  | error x =>
    obtain ⟨hdisputed, rfl⟩ := (herror x).mp h
    rw [if_pos hdisputed]

theorem flatMap_directiveConflicts (directives : List Name) :
    directives.flatMap (directiveConflicts schemas)
      = (directives.filter (DirectiveDisputed schemas ·)).map (directiveDispute schemas) := by
  induction directives with
  | nil => rfl
  | cons n directives ih =>
    rw [List.flatMap_cons, ih, directiveConflicts_eq, List.filter_cons]
    by_cases h : DirectiveDisputed schemas n <;> simp [h]

theorem mergeConflicts_eq :
    mergeConflicts registry schemas
      = (groupFailures registry schemas).flatMap flatten
        ++ ((directiveNames schemas).toList.filter (DirectiveDisputed schemas ·)).map
          (directiveDispute schemas) := by
  rw [groupFailures, ← typeNames_toList, ← flatMap_typeConflicts, ← flatMap_directiveConflicts]
  rfl

/-- A group fails with a conflict that is put together from single ones, if handlers do. -/
theorem exists_conflict_eq_of_mergedType (hr : registry.FailsWithAggregates) {type : Name}
    {conflict : Conflict} (h : mergedType registry schemas type = .error conflict) :
    ∃ t : Aggregate, t.conflict = conflict := by
  rcases mergeType_isReport_or_asked h with hreport | ⟨_, _, _, -, -, -, handler, hh, he⟩
  · exact hreport.exists_conflict_eq
  · obtain ⟨x, hx, rfl⟩ := Registry.exists_mem_of_handlerFor hh
    exact hr x hx _ _ _ he

theorem exists_map_conflict_eq (hr : registry.FailsWithAggregates) (schemas : List Schema) :
    ∃ ts : List Aggregate, ts.map Aggregate.conflict = groupFailures registry schemas := by
  suffices h : ∀ c ∈ groupFailures registry schemas, c ∈ Set.range Aggregate.conflict by
    rwa [← Set.mem_range, Set.range_list_map]
  intro c hc
  obtain ⟨type, -, hm⟩ := List.mem_map.mp (mem_errorsOf.mp hc)
  exact exists_conflict_eq_of_mergedType hr hm

/-- However deep conflicts are put together, taking the whole apart gives each single one once and
from left to right, and putting parts together is putting their leaves together. A merge that fails
reports what each failure is taken apart to, in the order in which the types first appear, and then
one conflict about each disputed directive. Where handlers only fail with what is put together from
single conflicts, all that is reported of types are the leaves of the failures. -/
theorem mergeSchemas_reports_leaves :
    (∀ t : Aggregate, t.conflict.flatten = t.leaves ∧ ∀ c ∈ t.leaves, c.IsSingle) ∧
    (∀ ts : List Aggregate,
      ofList (ts.map Aggregate.conflict) = ofList (ts.flatMap Aggregate.leaves)) ∧
    ∀ (registry : Registry) (schemas : List Schema),
      (∀ conflicts, mergeSchemas registry schemas = .error conflicts ↔
        conflicts ≠ [] ∧ conflicts = (groupFailures registry schemas).flatMap flatten
          ++ ((directiveNames schemas).toList.filter (DirectiveDisputed schemas ·)).map
            (directiveDispute schemas)) ∧
      (registry.FailsWithAggregates → ∃ ts : List Aggregate,
        ts.map Aggregate.conflict = groupFailures registry schemas ∧
        (groupFailures registry schemas).flatMap flatten = ts.flatMap Aggregate.leaves) := by
  refine ⟨fun t => ⟨t.flatten_conflict, t.isSingle_of_mem_leaves⟩, Aggregate.ofList_conflict,
    fun registry schemas => ⟨fun conflicts => ?_, fun hr => ?_⟩⟩
  · rw [mergeSchemas_eq_error_iff, mergeConflicts_eq]
    exact and_congr_left fun heq => by rw [heq]
  · obtain ⟨ts, hts⟩ := exists_map_conflict_eq hr schemas
    exact ⟨ts, hts, by rw [← hts, Aggregate.flatMap_flatten_conflict]⟩

end Merges

/-- Two schemas that differ in the hands of their clocks and in how often a clock may be wound. -/
def clocks : List Schema :=
  let hour : Name := ⟨"Hour", by decide⟩
  let clock : Name := ⟨"Clock", by decide⟩
  let hands : Name := ⟨"hands", by decide⟩
  let wound : Name := ⟨"wound", by decide⟩
  let schema (name : String) (shows : Name) (repeatable : Bool) : Schema :=
    let fields : Table Name Field := .ofList [(hands, .ofType hands (.named shows))]
    { Schema.empty name with
      types := .ofList [
        (hour, ⟨hour, none, [], .enum .empty⟩),
        (clock, ⟨clock, none, [], .object .empty fields⟩)]
      directiveDefinitions := .ofList [(wound, ⟨wound, none, .empty, repeatable, [.object]⟩)] }
  [schema "east" hour false, schema "west" clock true]

/-- What is wrong with the hours, as groups inside groups with an empty one among them. -/
def hourFaults : Conflict.Aggregate :=
  let fault (reason : String) : Conflict.Aggregate :=
    .single (.rejected ⟨"Hour", by decide⟩ (.ofList ["east", "west"]) reason) trivial
  .group [fault "no noon", .group [], .group [.group [fault "no dawn"], fault "no dusk"]]

/-- The built-in handlers, and one that refuses every enum. -/
def clockHandlers : Registry :=
  Registry.builtIn.register .enum 0 fun _ _ => .error hourFaults.conflict

/-- The merge of the clocks reports each fault of the hours once, then the field and the directive
that differ. -/
theorem mergeSchemas_reports_leaves_clocks :
    let hour : Name := ⟨"Hour", by decide⟩
    let clock : Name := ⟨"Clock", by decide⟩
    let hands : Name := ⟨"hands", by decide⟩
    let both : SchemaNames := .ofList ["east", "west"]
    let signatures := .ofList [("east", "hands: Hour"), ("west", "hands: Clock")]
    clockHandlers.FailsWithAggregates ∧
      (∃ ts : List Conflict.Aggregate,
        ts.map Conflict.Aggregate.conflict = groupFailures clockHandlers clocks ∧
        (groupFailures clockHandlers clocks).flatMap Conflict.flatten
          = ts.flatMap Conflict.Aggregate.leaves) ∧
      mergeSchemas clockHandlers clocks = .error [.rejected hour both "no noon",
        .rejected hour both "no dawn", .rejected hour both "no dusk",
        .fieldDiffers clock hands signatures, .directiveDiffers ⟨"wound", by decide⟩ both] := by
  intro hour clock hands both signatures
  have hhandlers : clockHandlers.FailsWithAggregates := by
    refine Registry.builtIn_failsWithAggregates.register fun type cs conflict h => ?_
    cases h
    exact ⟨hourFaults, rfl⟩
  obtain ⟨herror, hleaves⟩ := mergeSchemas_reports_leaves.2.2 clockHandlers clocks
  exact ⟨hhandlers, hleaves hhandlers, (herror _).mpr ⟨List.cons_ne_nil _ _, rfl⟩⟩

end SchemaWeave
