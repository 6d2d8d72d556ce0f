import SchemaWeave.Proofs.Composition.Failures
import SchemaWeave.Proofs.Plan.Request

/-!
# Plans that are accepted

Whether the schemas that rules and extensions are for are schemas of the plan is looked at when
the plan is complete. A plan is carried out unless a request was refused, such a schema is missing
or there is no schema at all, and then it is told which, in this order.
-/

namespace SchemaWeave

namespace Plan

/-- Whether `p'` is `p` with just the item of a request. -/
def Grants (p : Plan) (r : Request) (p' : Plan) : Prop :=
  ∃ i, r.item? = some i ∧ p' = p.append i

/-- Whether `p'` is `p` with nothing but errors, and with some. -/
def Refuses (p p' : Plan) : Prop := ∃ es, es ≠ [] ∧ p' = p.note es

/-- Whether some rule or some extension is for a given schema. -/
def IsFor (p : Plan) (schema : String) : Prop :=
  (∃ r ∈ p.rewriters, r.scope = .only schema) ∨ ∃ e ∈ p.extensions, e.1 = some schema

theorem grants_or_refuses (p : Plan) (r : Request) :
    p.Grants r (p.register r) ∨ p.Refuses (p.register r) := by
  obtain ⟨-, i, hi, -, h⟩ | ⟨hne, h⟩ := p.register_cases r
  · exact .inl ⟨i, hi, h⟩
  · exact .inr ⟨r.faults p, hne, h⟩

theorem refuses_register_iff {p : Plan} {r : Request} :
    p.Refuses (p.register r) ↔ r.faults p ≠ [] := by
  constructor
  · rintro ⟨es, hes, h⟩ hnil
    have herrors := p.register_errors r
    rw [h, hnil, note] at herrors
    exact hes (List.append_cancel_left herrors)
  · intro hne
    obtain ⟨hnil, -⟩ | ⟨-, h⟩ := p.register_cases r
    · exact absurd hnil hne
    · exact ⟨r.faults p, hne, h⟩

/-! ## Missing schemas -/

/-- Where something is told of just those things that are for a schema that is not there, there is
something to tell exactly when some thing is. -/
theorem filterMap_ne_nil_iff_exists {α β : Type} {p : Plan} {isFor : α → String → Prop}
    {f : α → Option β}
    (h : ∀ a, f a ≠ none ↔ ∃ s, isFor a s ∧ s ∉ p.schemas.map Prod.fst) (l : List α) :
    l.filterMap f ≠ [] ↔ ∃ s, (∃ a ∈ l, isFor a s) ∧ s ∉ p.schemas.map Prod.fst := by
  rw [ne_eq, List.filterMap_eq_nil_iff]
  push Not
  simp only [h]
  constructor
  · rintro ⟨a, ha, s, hs, hmem⟩
    exact ⟨s, ⟨a, ha, hs⟩, hmem⟩
  · rintro ⟨s, ⟨a, ha, hs⟩, hmem⟩
    exact ⟨a, ha, s, hs, hmem⟩

theorem unknownRuleScopes_ne_nil_iff {p : Plan} :
    p.unknownRuleScopes ≠ [] ↔
      ∃ s, (∃ r ∈ p.rewriters, r.scope = .only s) ∧ s ∉ p.schemas.map Prod.fst := by
  refine filterMap_ne_nil_iff_exists (fun r => ?_) p.rewriters
  cases r.scope <;> simp [← hasSchema_iff]

theorem unknownExtensionScopes_ne_nil_iff {p : Plan} :
    p.unknownExtensionScopes ≠ [] ↔
      ∃ s, (∃ e ∈ p.extensions, e.1 = some s) ∧ s ∉ p.schemas.map Prod.fst := by
  refine filterMap_ne_nil_iff_exists (fun e => ?_) p.extensions
  cases e.1 <;> simp [← hasSchema_iff]

theorem allErrors_ne_nil_iff {p : Plan} :
    p.allErrors ≠ [] ↔
      p.errors ≠ [] ∨ (∃ s, p.IsFor s ∧ s ∉ p.schemas.map Prod.fst) ∨ p.schemas = [] := by
  have hschemas : (if p.schemas.isEmpty then [ConfigurationError.noSchemas] else []) ≠ [] ↔
      p.schemas = [] := by
    cases p.schemas <;> simp
  simp only [allErrors, ne_eq, List.append_eq_nil_iff, not_and_or, IsFor, or_and_right, exists_or]
  rw [← ne_eq, ← ne_eq p.unknownRuleScopes, ← ne_eq p.unknownExtensionScopes, ← ne_eq (ite _ _ _),
    hschemas, unknownRuleScopes_ne_nil_iff, unknownExtensionScopes_ne_nil_iff, or_assoc, or_assoc,
    or_assoc]

/-! ## Lists of requests -/

/-- What requests leave is sound. Each of them is granted or refused. The plan is not accepted
exactly when one was refused, some rule or extension is for a schema that the plan does not have,
or it has no schema; and then it is told the faults of the requests in their order, the rules and
the extensions whose schema is missing, and the lack of schemas. -/
theorem registerAll_tells (rs : List Request) :
    (registerAll rs).Sound ∧
      (∀ before r after, rs = before ++ r :: after →
        (registerAll before).Grants r (registerAll (before ++ [r])) ∨
          (registerAll before).Refuses (registerAll (before ++ [r]))) ∧
      ∀ files es, (registerAll rs).compose files = .error (.configuration es) ↔
        ((∃ before r after, rs = before ++ r :: after ∧
              (registerAll before).Refuses (registerAll (before ++ [r]))) ∨
            (∃ s, (registerAll rs).IsFor s ∧ s ∉ (registerAll rs).schemas.map Prod.fst) ∨
            (registerAll rs).schemas = []) ∧
          es = empty.faultsFrom rs ++ (registerAll rs).unknownRuleScopes
            ++ (registerAll rs).unknownExtensionScopes
            ++ if (registerAll rs).schemas.isEmpty then [.noSchemas] else [] := by
  have hlast (before : List Request) (r : Request) :
      registerAll (before ++ [r]) = (registerAll before).register r := by
    simp [registerAll]
  have hrefused : (registerAll rs).errors ≠ [] ↔ ∃ before r after, rs = before ++ r :: after ∧
      (registerAll before).Refuses (registerAll (before ++ [r])) := by
    rw [registerAll_errors, faultsFrom_ne_nil_iff]
    simp only [hlast, refuses_register_iff]
    rfl
  refine ⟨registerAll_sound rs, fun before r _ _ => ?_, fun files es => ?_⟩
  · rw [hlast]
    exact grants_or_refuses _ r
  · rw [compose_eq_configuration_iff, ← hrefused, ← allErrors_ne_nil_iff, ← registerAll_errors]
    exact ⟨fun h => ⟨h.1 ▸ h.2, h.1.symm⟩, fun h => ⟨h.2.symm, h.2 ▸ h.1⟩⟩

end Plan

end SchemaWeave
