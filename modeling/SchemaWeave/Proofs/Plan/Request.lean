import SchemaWeave.Plan.Basic

/-!
# Requests to a plan

A plan is filled by one request after the other. Each is answered in one of two ways: what it asks
for is registered and nothing is noted, or its faults are noted and nothing is registered.
`register_eq` says which way and what the faults are, `registerAll_sound` what all requests
together leave in a plan, and `registerAll_errors` in which order their faults are noted.
-/

namespace SchemaWeave

/-- The schemas that a rule is for when it is asked for one schema or for none. -/
def Scope.ofSchema? : Option String → Scope
  | some s => .only s
  | none => .everywhere

/-- The names that a rule is about. -/
def Rule.names : Rule → List Name
  | removeType t => [t]
  | removeField f => [f.type, f.field]
  | removeRootTypes => []
  | renameType old new => [old, new]
  | renameField f new => [f.type, f.field, new]

namespace Plan

/-! ## Items and requests -/

/-- Something that can be registered. -/
inductive Item where
  | schema (name : String) (source : SchemaSource)
  | extension (schema : Option String) (source : ExtensionSource)
  | rewriter (rewriter : Rewriter)
  | handler (kind : TypeKind) (priority : Int32) (handler : Handler)

/-- A rule that is asked for with one schema or without. -/
def Item.rule (schema : Option String) (rule : Rule) : Item := .rewriter ⟨.ofSchema? schema, rule⟩

/-- The plan with one more item, behind the others of its sort. -/
def append (p : Plan) : Item → Plan
  | .schema name source => { p with schemas := p.schemas ++ [(name, source)] }
  | .extension schema source => { p with extensions := p.extensions ++ [(schema, source)] }
  | .rewriter r => { p with rewriters := p.rewriters ++ [r] }
  | .handler kind priority handler =>
    { p with registry := p.registry.register kind priority handler }

/-- The plan with errors behind the others. -/
def note (p : Plan) (es : List ConfigurationError) : Plan := { p with errors := p.errors ++ es }

/-- A request to register something. Rules and extensions are asked for with one schema or without;
a field that notes its schema may be renamed in that schema or in another one. -/
inductive Request where
  | schemaText (name sdl : String)
  | schemaFile (name path : String)
  | remoteSchema (name : String) (transport : Transport)
  | schema (name : String) (source : SchemaSource)
  | extension (schema : Option String) (source : ExtensionSource)
  | removeRootTypes (schema : Option String)
  | removeType (schema : Option String) (type : String)
  | removeField (schema : Option String) (field : FieldReference)
  | renameType (schema : Option String) (old new : String)
  | renameField (schema : Option String) (field : FieldReference) (new : String)
  | handler (kind : TypeKind) (priority : Int32) (handler : Handler)

/-- The plan after a request. -/
def register (p : Plan) : Request → Plan
  | .schemaText name sdl => p.addSchemaText name sdl
  | .schemaFile name path => p.addSchemaFile name path
  | .remoteSchema name transport => p.addRemoteSchema name transport
  | .schema name source => p.addSchema name source
  | .extension schema source => p.addExtension schema source
  | .removeRootTypes schema => p.removeRootTypes schema
  | .removeType schema type => p.removeType schema type
  | .removeField (some schema) field => p.removeField schema field
  | .removeField none field => p.addRule none (.removeField field)
  | .renameType schema old new => p.renameType schema old new
  | .renameField schema field new => p.renameField schema field new
  | .handler kind priority handler => p.addHandler kind priority handler

/-- The plan after a list of requests. -/
def registerAll (rs : List Request) : Plan := rs.foldl register empty

/-! ## Faults -/

/-- What is wrong with a text as a name. -/
def nameFaults (text : String) : List ConfigurationError :=
  if text.isEmpty then [.emptyArgument .name]
  else if (Name.ofText? text).isNone then [.invalidName text]
  else []

/-- What is wrong with the schema that something is asked for. -/
def scopeFaults (schema : Option String) : List ConfigurationError :=
  if schema = some "" then [.emptySchemaName] else []

/-- What is wrong with the name of a new schema. -/
def schemaFaults (p : Plan) (name : String) : List ConfigurationError :=
  if name = "" then [.emptySchemaName]
  else if name ∈ p.schemas.map Prod.fst then [.duplicateSchema name]
  else []

/-- What is wrong with a rule: all faults of its names, or else those of its schema. -/
def ruleFaults (names : List String) (schema : Option String) : List ConfigurationError :=
  if (names.flatMap nameFaults).isEmpty then scopeFaults schema else names.flatMap nameFaults

/-- What is wrong with the source of an extension. -/
def sourceFaults : ExtensionSource → List ConfigurationError
  | .text sdl => if Text.isBlankText sdl then [.emptyArgument .extensionText] else []
  | .file path => if path.isEmpty then [.emptyArgument .extensionPath] else []

namespace Request

/-- What is wrong with a request to a plan. -/
def faults (p : Plan) : Request → List ConfigurationError
  | schemaText name sdl =>
    if Text.isBlankText sdl then [.emptyArgument (.schemaText name)] else p.schemaFaults name
  | schemaFile name path =>
    if path.isEmpty then [.emptyArgument (.schemaPath name)] else p.schemaFaults name
  | remoteSchema name _ => p.schemaFaults name
  | schema name _ => p.schemaFaults name
  | extension scope source =>
    if (sourceFaults source).isEmpty then scopeFaults scope else sourceFaults source
  | removeRootTypes scope => ruleFaults [] scope
  | removeType scope type => ruleFaults [type] scope
  | removeField scope _ => ruleFaults [] scope
  | renameType scope old new => ruleFaults [old, new] scope
  | renameField scope _ new => ruleFaults [new] scope
  | handler _ _ _ => []

/-- What a request asks for, where its names are names. -/
def item? : Request → Option Item
  | schemaText name sdl => some (.schema name (.text sdl))
  | schemaFile name path => some (.schema name (.file path))
  | remoteSchema name transport => some (.schema name (.introspection transport))
  | schema name source => some (.schema name source)
  | extension scope source => some (.extension scope source)
  | removeRootTypes scope => some (Item.rule scope .removeRootTypes)
  | removeType scope type => (Name.ofText? type).map fun t => .rule scope (.removeType t)
  | removeField scope field => some (.rule scope (.removeField field))
  | renameType scope old new =>
    (Name.ofText? old).bind fun m => (Name.ofText? new).map fun n => .rule scope (.renameType m n)
  | renameField scope field new =>
    (Name.ofText? new).map fun n => .rule scope (.renameField field n)
  | handler kind priority h => some (.handler kind priority h)

end Request

/-! ## The answer to a request -/

/-- The plan after a request with given faults for a given item. -/
def answer (p : Plan) : List ConfigurationError → Option Item → Plan
  | [], some i => p.append i
  | es, _ => p.note es

theorem note_nil (p : Plan) : p.note [] = p := by
  simp [note]

theorem note_note (p : Plan) (es fs : List ConfigurationError) :
    (p.note es).note fs = p.note (es ++ fs) := by
  simp [note]

theorem answer_of_ne_nil (p : Plan) {es : List ConfigurationError} (h : es ≠ [])
    (i : Option Item) : p.answer es i = p.note es := by
  cases es with
  | nil => exact absurd rfl h
  | cons e es => rfl

theorem reject_eq_note (p : Plan) (e : ConfigurationError) : p.reject e = p.note [e] := rfl

theorem hasSchema_iff (p : Plan) (name : String) :
    p.hasSchema name = true ↔ name ∈ p.schemas.map Prod.fst := by
  simp only [hasSchema, List.any_eq_true, decide_eq_true_eq, List.mem_map]

theorem addSchema_eq (p : Plan) (name : String) (source : SchemaSource) :
    p.addSchema name source = p.answer (p.schemaFaults name) (some (.schema name source)) := by
  unfold addSchema schemaFaults
  by_cases hempty : name = ""
  · simp [hempty, answer, reject_eq_note]
  · rw [if_neg (by simpa using hempty), if_neg hempty]
    by_cases hmem : name ∈ p.schemas.map Prod.fst
    · rw [if_pos ((p.hasSchema_iff name).mpr hmem), if_pos hmem]
      rfl
    · rw [if_neg (mt (p.hasSchema_iff name).mp hmem), if_neg hmem]
      rfl

theorem addRule_eq (p : Plan) (schema : Option String) (rule : Rule) :
    p.addRule schema rule = p.answer (scopeFaults schema) (some (.rule schema rule)) := by
  cases schema with
  | none => rfl
  | some s =>
    unfold addRule scopeFaults
    by_cases hempty : s = ""
    · subst hempty
      rfl
    · rw [if_neg (by simpa using hempty)]
      exact if_neg (by simpa using hempty)

theorem addExtension_eq (p : Plan) (schema : Option String) (source : ExtensionSource) :
    p.addExtension schema source
      = p.answer ((Request.extension schema source).faults p)
          (some (.extension schema source)) := by
  unfold addExtension Request.faults sourceFaults scopeFaults
  cases source with
  | text sdl =>
    by_cases hblank : Text.isBlankText sdl = true <;> by_cases hscope : schema = some "" <;>
      simp [hblank, hscope, answer, append, reject_eq_note]
  | file path =>
    by_cases hempty : path.isEmpty = true <;> by_cases hscope : schema = some "" <;>
      simp [hempty, hscope, answer, append, reject_eq_note]

/-! ### Rules -/

theorem nameFaults_eq_nil_iff {text : String} :
    nameFaults text = [] ↔ (Name.ofText? text).isSome = true := by
  unfold nameFaults
  by_cases hempty : text.isEmpty
  · have htext : text = "" := by simpa using hempty
    subst htext
    exact iff_of_false (by simp) (by decide)
  · cases hname : Name.ofText? text <;> simp [hempty]

theorem checkName_eq (p : Plan) (text : String) :
    p.checkName text = (p.note (nameFaults text), Name.ofText? text) := by
  unfold checkName nameFaults
  by_cases hempty : text.isEmpty
  · have htext : text = "" := by simpa using hempty
    subst htext
    rfl
  · cases hname : Name.ofText? text <;> simp [hempty, reject_eq_note, note_nil]

theorem checkNames_eq (p : Plan) (first second : String) :
    p.checkNames first second
      = (p.note (nameFaults first ++ nameFaults second),
        (Name.ofText? first).bind fun m => (Name.ofText? second).map (m, ·)) := by
  simp only [checkNames, checkName_eq, note_note]

/-- A rule that is registered once its names are found to be names, and not at all when one of
them is none, is answered for the faults of its names and then for its schema. -/
theorem answer_ruleFaults (p : Plan) (names : List String) (schema : Option String)
    (rule : Option Rule) (h : names.flatMap nameFaults = [] ↔ rule.isSome = true) :
    (rule.elim (p.note (names.flatMap nameFaults))
        fun r => (p.note (names.flatMap nameFaults)).addRule schema r)
      = p.answer (ruleFaults names schema) (rule.map (.rule schema)) := by
  cases rule with
  | some r =>
    -- nothing was noted for the names, so the schema decides
    have hnames : names.flatMap nameFaults = [] := h.mpr rfl
    rw [ruleFaults, hnames, note_nil]
    exact addRule_eq p schema r
  | none =>
    have hnames : names.flatMap nameFaults ≠ [] := fun hnil => by cases h.mp hnil
    rw [ruleFaults, if_neg (by simpa using hnames), answer_of_ne_nil p hnames]
    rfl

/-! ### Requests -/

theorem removeType_eq (p : Plan) (schema : Option String) (type : String) :
    p.removeType schema type
      = p.answer (ruleFaults [type] schema) (Request.removeType schema type).item? := by
  have h := p.answer_ruleFaults [type] schema
    ((Name.ofText? type).map .removeType) (by simp [nameFaults_eq_nil_iff])
  rw [List.flatMap_singleton, Option.map_map] at h
  rw [removeType, checkName_eq, Request.item?]
  refine Eq.trans ?_ h
  cases Name.ofText? type <;> rfl

theorem renameField_eq (p : Plan) (schema : Option String) (field : FieldReference)
    (new : String) :
    p.renameField schema field new
      = p.answer (ruleFaults [new] schema) (Request.renameField schema field new).item? := by
  have h := p.answer_ruleFaults [new] schema
    ((Name.ofText? new).map (.renameField field)) (by simp [nameFaults_eq_nil_iff])
  rw [List.flatMap_singleton, Option.map_map] at h
  rw [renameField, checkName_eq, Request.item?]
  refine Eq.trans ?_ h
  cases Name.ofText? new <;> rfl

theorem renameType_eq (p : Plan) (schema : Option String) (old new : String) :
    p.renameType schema old new
      = p.answer (ruleFaults [old, new] schema) (Request.renameType schema old new).item? := by
  have h := p.answer_ruleFaults [old, new] schema
    ((Name.ofText? old).bind fun m => (Name.ofText? new).map (.renameType m))
    (by cases hold : Name.ofText? old <;> simp [nameFaults_eq_nil_iff, hold])
  rw [List.flatMap_cons, List.flatMap_singleton] at h
  rw [renameType, checkNames_eq, Request.item?]
  refine Eq.trans ?_ (h.trans ?_)
  · cases Name.ofText? old <;> cases Name.ofText? new <;> rfl
  · cases Name.ofText? old <;> cases Name.ofText? new <;> rfl

/-- What a request does: its item is registered, or its faults are noted. -/
theorem register_eq (p : Plan) (r : Request) : p.register r = p.answer (r.faults p) r.item? := by
  cases r with
  | schemaText name sdl =>
    rw [register, addSchemaText, Request.faults]
    split
    · rfl
    · exact p.addSchema_eq name (.text sdl)
  | schemaFile name path =>
    rw [register, addSchemaFile, Request.faults]
    split
    · rfl
    · exact p.addSchema_eq name (.file path)
  | remoteSchema name transport => exact p.addSchema_eq name (.introspection transport)
  | schema name source => exact p.addSchema_eq name source
  | extension scope source => exact p.addExtension_eq scope source
  | removeRootTypes scope => exact p.addRule_eq scope .removeRootTypes
  | removeType scope type => exact p.removeType_eq scope type
  | removeField scope field =>
    cases scope with
    | none => exact p.addRule_eq none (.removeField field)
    | some s => exact p.addRule_eq (some s) (.removeField field)
  | renameType scope old new => exact p.renameType_eq scope old new
  | renameField scope field new => exact p.renameField_eq scope field new
  | handler kind priority handler => rfl

/-! ## What a plan holds -/

/-- Whether everything in a plan is as requests have to ask for it. -/
structure Sound (p : Plan) : Prop where
  names_ne_empty : ∀ s ∈ p.schemas, s.1 ≠ ""
  names_nodup : (p.schemas.map Prod.fst).Nodup
  extensionScopes : ∀ e ∈ p.extensions, e.1 ≠ some ""
  ruleScopes : ∀ r ∈ p.rewriters, r.scope ≠ .only ""
  ruleNames : ∀ r ∈ p.rewriters, ∀ n ∈ r.rule.names, Name.isSpelling n.text.toList = true

/-- Whether an item may join a plan. -/
def Fits (p : Plan) : Item → Prop
  | .schema name _ => name ≠ "" ∧ name ∉ p.schemas.map Prod.fst
  | .extension schema _ => schema ≠ some ""
  | .rewriter r => r.scope ≠ .only ""
  | .handler _ _ _ => True

theorem schemaFaults_eq_nil_iff {p : Plan} {name : String} :
    p.schemaFaults name = [] ↔ name ≠ "" ∧ name ∉ p.schemas.map Prod.fst := by
  unfold schemaFaults
  by_cases hempty : name = ""
  · simp [hempty]
  · by_cases hmem : name ∈ p.schemas.map Prod.fst
    · rw [if_neg hempty, if_pos hmem]
      exact iff_of_false (by simp) fun h => h.2 hmem
    · rw [if_neg hempty, if_neg hmem]
      exact iff_of_true rfl ⟨hempty, hmem⟩

theorem scopeFaults_eq_nil_iff {schema : Option String} :
    scopeFaults schema = [] ↔ schema ≠ some "" := by
  unfold scopeFaults
  split <;> simp_all

theorem ruleFaults_eq_nil_iff {names : List String} {schema : Option String} :
    ruleFaults names schema = []
      ↔ (∀ text ∈ names, (Name.ofText? text).isSome = true) ∧ schema ≠ some "" := by
  rw [← scopeFaults_eq_nil_iff]
  simp only [← nameFaults_eq_nil_iff, ← List.flatMap_eq_nil_iff]
  unfold ruleFaults
  cases names.flatMap nameFaults <;> simp

theorem fits_rule (p : Plan) {schema : Option String} (h : schema ≠ some "") (rule : Rule) :
    p.Fits (.rule schema rule) := by
  cases schema with
  | none => exact fun hscope => nomatch hscope
  | some s =>
    rintro hscope
    obtain rfl : s = "" := Scope.only.inj hscope
    exact h rfl

/-- A request without faults asks for an item, and the item may join the plan. -/
theorem exists_item_of_faults_eq_nil {p : Plan} {r : Request} (h : r.faults p = []) :
    ∃ i, r.item? = some i ∧ p.Fits i := by
  cases r with
  | schemaText name sdl =>
    simp only [Request.faults] at h
    split at h
    · cases h
    · exact ⟨_, rfl, schemaFaults_eq_nil_iff.mp h⟩
  | schemaFile name path =>
    simp only [Request.faults] at h
    split at h
    · cases h
    · exact ⟨_, rfl, schemaFaults_eq_nil_iff.mp h⟩
  | remoteSchema name transport => exact ⟨_, rfl, schemaFaults_eq_nil_iff.mp h⟩
  | schema name source => exact ⟨_, rfl, schemaFaults_eq_nil_iff.mp h⟩
  | extension scope source =>
    simp only [Request.faults] at h
    split at h
    · exact ⟨_, rfl, scopeFaults_eq_nil_iff.mp h⟩
    · next hsource => exact absurd (List.isEmpty_iff.mpr h) hsource
  | removeRootTypes scope => exact ⟨_, rfl, p.fits_rule (ruleFaults_eq_nil_iff.mp h).2 _⟩
  | removeField scope field => exact ⟨_, rfl, p.fits_rule (ruleFaults_eq_nil_iff.mp h).2 _⟩
  | removeType scope type =>
    obtain ⟨hnames, hscope⟩ := ruleFaults_eq_nil_iff.mp h
    obtain ⟨n, hn⟩ := Option.isSome_iff_exists.mp (hnames type (by simp))
    exact ⟨.rule scope (.removeType n), by simp [Request.item?, hn], p.fits_rule hscope _⟩
  | renameType scope old new =>
    obtain ⟨hnames, hscope⟩ := ruleFaults_eq_nil_iff.mp h
    obtain ⟨m, hm⟩ := Option.isSome_iff_exists.mp (hnames old (by simp))
    obtain ⟨n, hn⟩ := Option.isSome_iff_exists.mp (hnames new (by simp))
    exact ⟨.rule scope (.renameType m n), by simp [Request.item?, hm, hn], p.fits_rule hscope _⟩
  | renameField scope field new =>
    obtain ⟨hnames, hscope⟩ := ruleFaults_eq_nil_iff.mp h
    obtain ⟨n, hn⟩ := Option.isSome_iff_exists.mp (hnames new (by simp))
    exact ⟨.rule scope (.renameField field n), by simp [Request.item?, hn],
      p.fits_rule hscope _⟩
  | handler kind priority h => exact ⟨_, rfl, trivial⟩

/-- A request is granted or refused. -/
theorem register_cases (p : Plan) (r : Request) :
    (r.faults p = [] ∧ ∃ i, r.item? = some i ∧ p.Fits i ∧ p.register r = p.append i) ∨
      (r.faults p ≠ [] ∧ p.register r = p.note (r.faults p)) := by
  by_cases h : r.faults p = []
  · obtain ⟨i, hi, hfits⟩ := exists_item_of_faults_eq_nil h
    refine .inl ⟨h, i, hi, hfits, ?_⟩
    rw [register_eq, h, hi]
    rfl
  · exact .inr ⟨h, by rw [register_eq, answer_of_ne_nil p h]⟩

theorem register_errors (p : Plan) (r : Request) :
    (p.register r).errors = p.errors ++ r.faults p := by
  obtain ⟨hnone, i, -, -, h⟩ | ⟨-, h⟩ := p.register_cases r
  · rw [h, hnone, List.append_nil]
    cases i <;> rfl
  · rw [h]
    rfl

theorem Sound.append {p : Plan} (hp : p.Sound) {i : Item} (hi : p.Fits i) : (p.append i).Sound := by
  obtain ⟨hne, hnodup, hextensions, hrules, hnames⟩ := hp
  cases i with
  | schema name source =>
    refine ⟨?_, ?_, hextensions, hrules, hnames⟩
    · exact List.forall_mem_append.mpr ⟨hne, List.forall_mem_singleton.mpr hi.1⟩
    · have hname :
          (p.schemas ++ [(name, source)]).map Prod.fst = p.schemas.map Prod.fst ++ [name] :=
        List.map_append
      show ((p.schemas ++ [(name, source)]).map Prod.fst).Nodup
      rw [hname]
      refine List.nodup_append.mpr ⟨hnodup, List.pairwise_singleton _ _, ?_⟩
      rintro n hn _ hname rfl
      exact hi.2 (List.mem_singleton.mp hname ▸ hn)
  | extension schema source =>
    refine ⟨hne, hnodup, ?_, hrules, hnames⟩
    exact List.forall_mem_append.mpr ⟨hextensions, List.forall_mem_singleton.mpr hi⟩
  | rewriter r =>
    refine ⟨hne, hnodup, hextensions, ?_, ?_⟩
    · exact List.forall_mem_append.mpr ⟨hrules, List.forall_mem_singleton.mpr hi⟩
    · exact List.forall_mem_append.mpr
        ⟨hnames, List.forall_mem_singleton.mpr fun n _ => n.spelled⟩
  | handler kind priority h => exact ⟨hne, hnodup, hextensions, hrules, hnames⟩

theorem Sound.note {p : Plan} (hp : p.Sound) (es : List ConfigurationError) : (p.note es).Sound :=
  ⟨hp.1, hp.2, hp.3, hp.4, hp.5⟩

theorem sound_empty : empty.Sound := by
  constructor <;> simp [empty]

/-- A request leaves a sound plan sound. -/
theorem Sound.register {p : Plan} (hp : p.Sound) (r : Request) : (p.register r).Sound := by
  obtain ⟨-, i, -, hi, h⟩ | ⟨-, h⟩ := p.register_cases r
  · exact h ▸ hp.append hi
  · exact h ▸ hp.note _

/-! ## Lists of requests -/

/-- The faults of requests, each seen from the plan that it is made to. -/
def faultsFrom (p : Plan) : List Request → List ConfigurationError
  | [] => []
  | r :: rs => r.faults p ++ faultsFrom (p.register r) rs

theorem foldl_register_errors (p : Plan) (rs : List Request) :
    (rs.foldl register p).errors = p.errors ++ p.faultsFrom rs := by
  induction rs generalizing p with
  | nil => exact (List.append_nil _).symm
  | cons r rs ih => rw [List.foldl_cons, ih, register_errors, faultsFrom, List.append_assoc]

/-- The errors of a plan are the faults of its requests in their order. -/
theorem registerAll_errors (rs : List Request) : (registerAll rs).errors = empty.faultsFrom rs :=
  (empty.foldl_register_errors rs).trans (List.nil_append _)

theorem registerAll_sound (rs : List Request) : (registerAll rs).Sound := by
  suffices h : ∀ p : Plan, p.Sound → (rs.foldl register p).Sound from h empty sound_empty
  induction rs with
  | nil => exact fun p hp => hp
  | cons r rs ih => exact fun p hp => ih (p.register r) (hp.register r)

theorem faultsFrom_append (p : Plan) (rs ss : List Request) :
    p.faultsFrom (rs ++ ss) = p.faultsFrom rs ++ (rs.foldl register p).faultsFrom ss := by
  induction rs generalizing p with
  | nil => rfl
  | cons r rs ih => rw [List.cons_append, faultsFrom, ih, faultsFrom, List.append_assoc]; rfl

/-- There are faults exactly when some request is refused. -/
theorem faultsFrom_ne_nil_iff {p : Plan} {rs : List Request} :
    p.faultsFrom rs ≠ [] ↔
      ∃ before r after, rs = before ++ r :: after ∧ r.faults (before.foldl register p) ≠ [] := by
  induction rs generalizing p with
  | nil => simp [faultsFrom]
  | cons r rs ih =>
    constructor
    · intro h
      by_cases hr : r.faults p = []
      · rw [faultsFrom, hr, List.nil_append] at h
        obtain ⟨before, r', after, rfl, hr'⟩ := ih.mp h
        exact ⟨r :: before, r', after, rfl, hr'⟩
      · exact ⟨[], r, rs, rfl, hr⟩
    · rintro ⟨before, r', after, hrs, hr'⟩
      rw [hrs, faultsFrom_append, faultsFrom]
      simp [hr']

end Plan

end SchemaWeave
