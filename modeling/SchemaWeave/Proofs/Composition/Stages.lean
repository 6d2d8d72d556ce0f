import SchemaWeave.Plan.Composition
import SchemaWeave.Proofs.Keyed.Acquisition
import SchemaWeave.Proofs.Keyed.Rewrite

/-!
# The stages of a composition

A composition that succeeds went through all stages, and a plan together with its files decides
what each of them gave. `Composition` keeps these results.
-/

namespace SchemaWeave

/-- The results of all stages of a plan that gives `m`. -/
structure Composition (p : Plan) (files : Files) (m : Merged) where
  acquired : List Schema
  texts : List (Option String × String)
  extended : List Schema
  rewritten : List Schema
  merged : Merged
  accepted : p.allErrors = []
  acquisition : acquireAll files p.schemas = .ok acquired
  loading : p.loadExtensions files = .ok texts
  extension : Plan.extendSchemas acquired texts = .ok extended
  rewriting : rewriteAll extended p.rewriters = .ok rewritten
  merging : mergeSchemas p.registry rewritten = .ok merged
  completion : Plan.extendMerged merged (Plan.textsFor none texts) = .ok m
  validation : m.schema.validate = .ok ()

namespace Plan

theorem extendByTexts_eq_ok {s s' : Schema} {texts : List String}
    (h : extendByTexts s texts = .ok s') : ∃ ds, s.extendBy ds = .ok s' := by
  obtain ⟨ds, -, h⟩ := bind_eq_ok_iff.mp h
  exact ⟨ds, h⟩

/-- An extended merge is the merge itself, or its schema has grown and the origins follow. -/
theorem extendMerged_eq_ok {m m' : Merged} {texts : List String}
    (h : extendMerged m texts = .ok m') :
    m' = m ∨ ∃ ds, m.schema.extendBy ds = .ok m'.schema ∧
      m'.origins = m.origins.follow m'.schema := by
  unfold extendMerged at h
  split at h
  · cases h
    exact Or.inl rfl
  · obtain ⟨s, hs, rfl⟩ := map_eq_ok_iff.mp h
    obtain ⟨ds, hds⟩ := extendByTexts_eq_ok hs
    exact Or.inr ⟨ds, hds, rfl⟩

theorem compose_eq_ok_iff {p : Plan} {files : Files} {m : Merged} :
    p.compose files = .ok m ↔ Nonempty (Composition p files m) := by
  unfold compose
  constructor
  · intro h
    split at h
    · next hnone =>
      obtain ⟨acquired, hacquired, h⟩ := bind_eq_ok_iff.mp h
      obtain ⟨texts, htexts, h⟩ := bind_eq_ok_iff.mp h
      obtain ⟨extended, hextended, h⟩ := bind_eq_ok_iff.mp h
      obtain ⟨rewritten, hrewritten, h⟩ := bind_eq_ok_iff.mp h
      obtain ⟨merged, hmerged, h⟩ := bind_eq_ok_iff.mp h
      obtain ⟨complete, hcomplete, h⟩ := bind_eq_ok_iff.mp h
      obtain ⟨_, hvalid, h⟩ := bind_eq_ok_iff.mp h
      cases h
      exact ⟨⟨acquired, texts, extended, rewritten, merged, List.isEmpty_iff.mp hnone,
        mapError_eq_ok_iff.mp hacquired, mapError_eq_ok_iff.mp htexts,
        mapError_eq_ok_iff.mp hextended, mapError_eq_ok_iff.mp hrewritten,
        mapError_eq_ok_iff.mp hmerged, mapError_eq_ok_iff.mp hcomplete,
        mapError_eq_ok_iff.mp hvalid⟩⟩
    · cases h
  · rintro ⟨c⟩
    simp only [if_pos (List.isEmpty_iff.mpr c.accepted), bind, Except.bind, c.acquisition,
      c.loading, c.extension, c.rewriting, c.merging, c.completion, c.validation, Except.mapError]
    rfl

end Plan

namespace Composition

variable {p : Plan} {files : Files} {m : Merged} (c : Composition p files m)

/-! ## Schema by schema -/

theorem extended_forall₂ :
    List.Forall₂ (fun s s' => Plan.extendByTexts s (Plan.textsFor (some s.name) c.texts) = .ok s')
      c.acquired c.extended :=
  forall₂_of_map_eq (collectAll_eq_ok_iff.mp c.extension)

/-- The schemas keep the names they were registered under, and their order. -/
theorem rewritten_names : c.rewritten.map Schema.name = p.schemas.map Prod.fst := by
  have hextended : c.extended.map Schema.name = c.acquired.map Schema.name := by
    refine map_eq_map_of_forall₂ c.extended_forall₂ fun s s' h => ?_
    obtain ⟨ds, hds⟩ := Plan.extendByTexts_eq_ok h
    exact (Schema.extendBy_growsTo hds).name
  rw [rewriteAll_names c.rewriting, hextended, acquireAll_names c.acquisition]

/-- Every schema that is merged is keyed. -/
theorem rewritten_keyed : ∀ s ∈ c.rewritten, s.Keyed := by
  have hextended : ∀ s ∈ c.extended, s.Keyed := by
    refine forall_of_forall₂ c.extended_forall₂ (acquireAll_keyed c.acquisition) fun s s' h hs => ?_
    obtain ⟨ds, hds⟩ := Plan.extendByTexts_eq_ok h
    exact Schema.extendBy_keyed hs hds
  exact rewriteAll_keyed c.rewriting hextended

end Composition

end SchemaWeave
