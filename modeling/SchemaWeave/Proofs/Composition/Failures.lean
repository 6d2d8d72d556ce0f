import SchemaWeave.Proofs.Composition.Stages

/-!
# Compositions that fail early

A composition fails with the errors of a plan before anything is read, and with the failures of
its sources before anything is extended. Schemas and extensions are read side by side, but their
failures are told one after the other: those of extensions only where no schema failed. So a list
of failures is complete exactly when the failing sources are all schemas or all extensions.
-/

namespace SchemaWeave

variable {ε α β : Type}

/-- The error of a result that is one. -/
def failure? : Except ε α → Option ε
  | .ok _ => none
  | .error e => some e

theorem errorsOf_eq_filterMap (rs : List (Except ε α)) : errorsOf rs = rs.filterMap failure? := by
  induction rs with
  | nil => rfl
  | cons r rs ih =>
    cases r with
    | ok a => exact ih
    | error e => exact congrArg (e :: ·) ih

theorem failure?_map (x : Except ε α) (f : α → β) : failure? (x.map f) = failure? x := by
  cases x <;> rfl

/-- A step behind a guard gives a result when the whole does. -/
theorem ok_of_guard {c : Prop} [Decidable c] {e : ε} {step : Unit → Except ε β} {b : β}
    (h : (if c then Except.error e >>= step else step ()) = .ok b) : step () = .ok b := by
  by_cases hc : c
  · rw [if_pos hc] at h
    cases h
  · rwa [if_neg hc] at h

namespace Plan

/-- The failures of the schemas of a plan, one for each schema that its source does not give. -/
def schemaFailures (p : Plan) (files : Files) : List AcquisitionError :=
  p.schemas.filterMap fun s => failure? (s.2.acquire files s.1)

/-- The failures of the extensions of a plan, one for each whose text cannot be read. -/
def extensionFailures (p : Plan) (files : Files) : List AcquisitionError :=
  p.extensions.filterMap fun e => failure? (e.2.load files (e.1.getD unifiedName))

variable {p : Plan} {files : Files}

theorem acquireAll_eq_error_iff {es : List AcquisitionError} :
    acquireAll files p.schemas = .error es ↔ p.schemaFailures files = es ∧ es ≠ [] := by
  rw [acquireAll, collectResults_eq_error_iff, errorsOf_eq_filterMap, List.filterMap_map]
  rfl

theorem loadExtensions_eq_error_iff {es : List AcquisitionError} :
    p.loadExtensions files = .error es ↔ p.extensionFailures files = es ∧ es ≠ [] := by
  have hfailures :
      (p.extensions.map fun e => (e.2.load files (e.1.getD unifiedName)).map (e.1, ·)).filterMap
        failure? = p.extensionFailures files := by
    rw [List.filterMap_map]
    exact List.filterMap_congr fun e _ => failure?_map _ _
  rw [loadExtensions, collectResults_eq_error_iff, errorsOf_eq_filterMap, hfailures]

theorem exists_acquireAll_eq_ok_iff :
    (∃ ss, acquireAll files p.schemas = .ok ss) ↔ p.schemaFailures files = [] := by
  cases h : acquireAll files p.schemas with
  | ok ss =>
    refine iff_of_true ⟨ss, rfl⟩ (by_contra fun hne => ?_)
    rw [acquireAll_eq_error_iff.mpr ⟨rfl, hne⟩] at h
    cases h
  | error es =>
    obtain ⟨rfl, hne⟩ := acquireAll_eq_error_iff.mp h
    exact iff_of_false nofun hne

/-! ## The first two stages -/

theorem compose_of_allErrors_ne_nil (h : p.allErrors ≠ []) :
    p.compose files = .error (.configuration p.allErrors) := by
  unfold compose
  rw [if_neg (by simpa using h)]
  rfl

theorem compose_eq_configuration_iff {es : List ConfigurationError} :
    p.compose files = .error (.configuration es) ↔ p.allErrors = es ∧ es ≠ [] := by
  by_cases h : p.allErrors = []
  · refine iff_of_false ?_ fun hes => hes.2 (hes.1 ▸ h)
    unfold compose
    rw [if_pos (List.isEmpty_iff.mpr h)]
    simp [bind_eq_error_iff, mapError_eq_error_iff, map_eq_error_iff]
  · rw [compose_of_allErrors_ne_nil h, Except.error.injEq, CompositionError.configuration.injEq]
    exact ⟨fun hes => ⟨hes, hes ▸ h⟩, And.left⟩

theorem compose_eq_acquisition_iff {es : List AcquisitionError} :
    p.compose files = .error (.acquisition es) ↔ p.allErrors = [] ∧ es ≠ [] ∧
      (p.schemaFailures files = es ∨
        p.schemaFailures files = [] ∧ p.extensionFailures files = es) := by
  by_cases h : p.allErrors = []
  · -- extensions are looked at once every schema is there
    have hstages : p.compose files = .error (.acquisition es) ↔
        acquireAll files p.schemas = .error es ∨
          (∃ ss, acquireAll files p.schemas = .ok ss) ∧ p.loadExtensions files = .error es := by
      unfold compose
      rw [if_pos (List.isEmpty_iff.mpr h)]
      simp [bind_eq_error_iff, mapError_eq_error_iff, map_eq_error_iff, mapError_eq_ok_iff]
    rw [hstages, acquireAll_eq_error_iff, loadExtensions_eq_error_iff, exists_acquireAll_eq_ok_iff]
    tauto
  · rw [compose_of_allErrors_ne_nil h]
    exact iff_of_false (fun h => nomatch h) fun hes => h hes.1

/-- A plan that is accepted but has sources that fail is not carried out, and the failures are
told: all those of schemas if there are any, otherwise all those of extensions. That is every
failure exactly when not both a schema and an extension failed. -/
theorem compose_tellsFailures_iff (haccepted : p.allErrors = [])
    (hfails : p.schemaFailures files ≠ [] ∨ p.extensionFailures files ≠ []) :
    (∃ es, p.compose files = .error (.acquisition es)) ∧
      (p.compose files = .error
          (.acquisition (p.schemaFailures files ++ p.extensionFailures files)) ↔
        p.schemaFailures files = [] ∨ p.extensionFailures files = []) := by
  simp only [compose_eq_acquisition_iff, haccepted, true_and]
  by_cases hschemas : p.schemaFailures files = []
  · have hextensions : p.extensionFailures files ≠ [] := hfails.resolve_left (absurd hschemas)
    exact ⟨⟨_, hextensions, .inr ⟨hschemas, rfl⟩⟩, by simp [hschemas, hextensions]⟩
  · refine ⟨⟨_, hschemas, .inl rfl⟩, ?_⟩
    simp [hschemas]

end Plan

/-- A remote schema that cannot be reached. -/
def unreachable : Transport := fun _ _ => .error "connection refused"

/-- A plan for two schemas out of reach and an extension that is at hand. -/
def lighthouses : Plan :=
  { Plan.empty with
    schemas := [("beacon", .introspection unreachable), ("lamp", .introspection unreachable)]
    extensions := [(some "lamp", .text "type Lens")] }

theorem compose_tellsFailures_lighthouses :
    lighthouses.allErrors = [] ∧ lighthouses.schemaFailures .none ≠ [] ∧
      lighthouses.compose .none = .error (.acquisition
        [⟨"beacon", .transport "connection refused"⟩,
          ⟨"lamp", .transport "connection refused"⟩]) := by
  have haccepted : lighthouses.allErrors = [] := by decide
  have hfails : lighthouses.schemaFailures .none ≠ [] := by decide
  exact ⟨haccepted, hfails,
    (Plan.compose_tellsFailures_iff haccepted (.inl hfails)).2.mpr (.inr rfl)⟩

/-- What is read is a file. -/
theorem Files.exists_fileAt?_of_read {f : Files} {path text : String} (h : f.read path = .ok text) :
    ∃ place bytes, f.fileAt? place = some bytes := by
  unfold Files.read at h
  have h := ok_of_guard (ok_of_guard (ok_of_guard h))
  obtain ⟨place, -, h⟩ := bind_eq_ok_iff.mp h
  cases hfile : f.fileAt? place with
  | some bytes => exact ⟨place, bytes, hfile⟩
  | none => simp [hfile] at h

/-- The plan with its extension in a file. -/
def lighthousesFiled : Plan :=
  { lighthouses with extensions := [(some "lamp", .file "lens.graphql")] }

/-- Without the file, the plan is not told to lack it. -/
theorem not_compose_tellsFailures_lighthousesFiled :
    lighthousesFiled.allErrors = [] ∧ lighthousesFiled.extensionFailures .none ≠ [] ∧
      lighthousesFiled.compose .none ≠ .error (.acquisition
        (lighthousesFiled.schemaFailures .none ++ lighthousesFiled.extensionFailures .none)) := by
  have hextensions : lighthousesFiled.extensionFailures .none ≠ [] := by
    cases hread : Files.none.read "lens.graphql" with
    | ok text =>
      obtain ⟨_, _, hfile⟩ := Files.exists_fileAt?_of_read hread
      cases hfile
    | error fault =>
      simp [Plan.extensionFailures, lighthousesFiled, ExtensionSource.load, readFor, hread,
        Except.mapError, failure?]
  have hschemas : lighthousesFiled.schemaFailures .none ≠ [] := by decide
  refine ⟨by decide, hextensions, ?_⟩
  rw [ne_eq, Plan.compose_eq_acquisition_iff]
  simp [hschemas, hextensions]

end SchemaWeave
