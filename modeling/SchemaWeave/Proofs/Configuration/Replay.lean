import SchemaWeave.Configuration.Plan
import SchemaWeave.Proofs.Plan.Request

/-!
# Configurations as requests

Every entry of a configuration stands for a request to a plan, or has faults that keep it from
being one. Making the requests one by one gives the plan of the configuration, with one exception:
a schema whose text is blank or whose path is empty is registered by the configuration and refused
by the request.
-/

namespace SchemaWeave

open Plan

/-! ## What entries stand for -/

namespace SchemaEntry

/-- The request that a schema stands for. -/
def request (e : SchemaEntry) : Except (List ConfigurationError) Request :=
  match e.sdl, e.file with
  | some sdl, none => .ok (.schemaText e.name sdl)
  | none, some path => .ok (.schemaFile e.name path)
  | _, _ => .error [.invalidSource (.schema e.name)]

/-- The request for a schema from whatever source it has, which is not looked at. -/
def plainRequest (e : SchemaEntry) : Except (List ConfigurationError) Request :=
  match oneSource SchemaSource.text SchemaSource.file e.sdl e.file with
  | some source => .ok (.schema e.name source)
  | none => .error [.invalidSource (.schema e.name)]

/-- Whether the one source of a schema is a blank text or an empty path. -/
def isVoid (e : SchemaEntry) : Bool :=
  match e.sdl, e.file with
  | some sdl, none => Text.isBlankText sdl
  | none, some path => path.isEmpty
  | _, _ => false

end SchemaEntry

/-- The request that an extension stands for. -/
def ExtensionEntry.request (e : ExtensionEntry) : Except (List ConfigurationError) Request :=
  match e.sdl, e.file with
  | some sdl, none => .ok (.extension e.schema (.text sdl))
  | none, some path => .ok (.extension e.schema (.file path))
  | _, _ => .error [.invalidSource (.extension e.schema)]

/-- The field that two names refer to. -/
def FieldReference.ofTexts? (type field : String) : Option FieldReference :=
  (Name.ofText? type).bind fun t => (Name.ofText? field).map (⟨none, t, ·⟩)

/-- The request that a rule stands for. There is none for a field that is not referred to by names,
and then all names are told that are none. -/
def RewriteEntry.request : RewriteEntry → Except (List ConfigurationError) Request
  | removeType schema type => .ok (.removeType schema type)
  | removeField schema type field =>
    match FieldReference.ofTexts? type field with
    | some f => .ok (.removeField schema f)
    | none => .error ([type, field].flatMap nameFaults)
  | removeRootTypes schema => .ok (.removeRootTypes schema)
  | renameType schema old new => .ok (.renameType schema old new)
  | renameField schema type field new =>
    match FieldReference.ofTexts? type field with
    | some f => .ok (.renameField schema f new)
    | none => .error ([type, field, new].flatMap nameFaults)

namespace Plan

/-- Makes a request, or notes why there is none. -/
def replay (p : Plan) : Except (List ConfigurationError) Request → Plan
  | .ok r => p.register r
  | .error es => p.note es

end Plan

namespace Configuration

/-- The requests that the entries of a configuration stand for, in their order. -/
def requests (c : Configuration) : List (Except (List ConfigurationError) Request) :=
  c.schemas.map SchemaEntry.request ++ c.extensions.map ExtensionEntry.request
    ++ c.rewrites.map RewriteEntry.request

/-- The plan that the requests of a configuration give one by one. -/
def replayed (c : Configuration) : Plan := c.requests.foldl Plan.replay .empty

end Configuration

/-! ## Entry by entry -/

namespace Plan

theorem addSchemaEntry_eq (p : Plan) (e : SchemaEntry) :
    p.addSchemaEntry e = p.replay e.plainRequest := by
  rw [addSchemaEntry, SchemaEntry.plainRequest]
  cases oneSource SchemaSource.text SchemaSource.file e.sdl e.file <;> rfl

theorem replay_plainRequest (p : Plan) {e : SchemaEntry} (h : e.isVoid = false) :
    p.replay e.plainRequest = p.replay e.request := by
  obtain ⟨name, sdl, file⟩ := e
  cases sdl with
  | none =>
    cases file with
    | none => rfl
    | some path => exact (if_neg (ne_true_of_eq_false h)).symm
  | some sdl =>
    cases file with
    | none => exact (if_neg (ne_true_of_eq_false h)).symm
    | some path => rfl

theorem addExtensionEntry_eq (p : Plan) (e : ExtensionEntry) :
    p.addExtensionEntry e = p.replay e.request := by
  obtain ⟨schema, sdl, file⟩ := e
  cases sdl <;> cases file <;> rfl

theorem nameFaults_of_ofText? {text : String} {n : Name} (h : Name.ofText? text = some n) :
    nameFaults text = [] :=
  nameFaults_eq_nil_iff.mpr (Option.isSome_of_eq_some h)

theorem addRewriteEntry_eq (p : Plan) (e : RewriteEntry) :
    p.addRewriteEntry e = p.replay e.request := by
  cases e with
  | removeType schema type => rfl
  | removeRootTypes schema => rfl
  | renameType schema old new => rfl
  | removeField schema type field =>
    rw [addRewriteEntry, checkNames_eq, RewriteEntry.request, FieldReference.ofTexts?]
    cases htype : Name.ofText? type with
    | none => simp [replay]
    | some t =>
      cases hfield : Name.ofText? field with
      | none => simp [replay]
      | some f =>
        rw [nameFaults_of_ofText? htype, nameFaults_of_ofText? hfield, List.nil_append, note_nil]
        cases schema <;> rfl
  | renameField schema type field new =>
    simp only [addRewriteEntry, checkNames_eq, checkName_eq, note_note, RewriteEntry.request,
      FieldReference.ofTexts?]
    cases htype : Name.ofText? type with
    | none => simp [replay]
    | some t =>
      cases hfield : Name.ofText? field with
      | none => simp [replay]
      | some f =>
        rw [nameFaults_of_ofText? htype, nameFaults_of_ofText? hfield, List.nil_append,
          List.nil_append]
        show _ = p.renameField schema ⟨none, t, f⟩ new
        rw [renameField, checkName_eq]
        cases Name.ofText? new <;> rfl

theorem Sound.replay {p : Plan} (hp : p.Sound) (x : Except (List ConfigurationError) Request) :
    (p.replay x).Sound := by
  cases x with
  | ok r => exact hp.register r
  | error es => exact hp.note es

theorem Sound.foldl_replay {p : Plan} (hp : p.Sound)
    (xs : List (Except (List ConfigurationError) Request)) : (xs.foldl Plan.replay p).Sound := by
  induction xs generalizing p with
  | nil => exact hp
  | cons x xs ih => exact ih (hp.replay x)

end Plan

namespace Configuration

/-- What is left of a configuration after its schemas. -/
def laterRequests (c : Configuration) : List (Except (List ConfigurationError) Request) :=
  c.extensions.map ExtensionEntry.request ++ c.rewrites.map RewriteEntry.request

theorem plan_eq (c : Configuration) :
    c.plan = c.laterRequests.foldl Plan.replay
      ((c.schemas.map SchemaEntry.plainRequest).foldl Plan.replay .empty) := by
  have hschema : addSchemaEntry = fun p e => p.replay e.plainRequest :=
    funext fun p => funext p.addSchemaEntry_eq
  have hextension : addExtensionEntry = fun p e => p.replay e.request :=
    funext fun p => funext p.addExtensionEntry_eq
  have hrewrite : addRewriteEntry = fun p e => p.replay e.request :=
    funext fun p => funext p.addRewriteEntry_eq
  rw [plan, laterRequests, List.foldl_append, List.foldl_map, List.foldl_map, List.foldl_map,
    hschema, hextension, hrewrite]

/-- What a configuration registers could have been asked for. -/
theorem plan_sound (c : Configuration) : c.plan.Sound := by
  rw [plan_eq]
  exact (sound_empty.foldl_replay _).foldl_replay _

theorem replayed_eq (c : Configuration) :
    c.replayed = c.laterRequests.foldl Plan.replay
      ((c.schemas.map SchemaEntry.request).foldl Plan.replay .empty) := by
  simp only [replayed, requests, laterRequests, List.foldl_append]

end Configuration

/-! ## Errors about the source of a schema -/

/-- Whether an error is about the text or the path of a schema. -/
def ConfigurationError.blamesSource : ConfigurationError → Bool
  | emptyArgument (.schemaText _) => true
  | emptyArgument (.schemaPath _) => true
  | _ => false

/-- Whether a request is for a schema. -/
def Plan.Request.isSchema : Request → Bool
  | schemaText _ _ | schemaFile _ _ | remoteSchema _ _ | schema _ _ => true
  | _ => false

namespace Plan

/-- What is wrong with a request, or why there is none. -/
def faultsOf (p : Plan) : Except (List ConfigurationError) Request → List ConfigurationError
  | .ok r => r.faults p
  | .error es => es

theorem replay_errors (p : Plan) (x : Except (List ConfigurationError) Request) :
    (p.replay x).errors = p.errors ++ p.faultsOf x := by
  cases x with
  | ok r => exact p.register_errors r
  | error es => rfl

/-- The faults of a request for something else do not depend on the schemas of the plan. -/
theorem faults_congr {r : Request} (hr : r.isSchema = false) (p q : Plan) :
    r.faults p = r.faults q := by
  cases r <;> first | rfl | cases hr

theorem mem_errors_foldl_replay {p : Plan} {e : ConfigurationError} (h : e ∈ p.errors)
    (xs : List (Except (List ConfigurationError) Request)) :
    e ∈ (xs.foldl replay p).errors := by
  induction xs generalizing p with
  | nil => exact h
  | cons x xs ih =>
    refine ih ?_
    rw [replay_errors]
    exact List.mem_append_left _ h

/-- Where no request brings an error about a source, no error is about a source. -/
theorem foldl_replay_blamesSource {xs : List (Except (List ConfigurationError) Request)}
    (hxs : ∀ x ∈ xs, ∀ p : Plan, (p.faultsOf x).any ConfigurationError.blamesSource = false)
    {p : Plan} (h : p.errors.any ConfigurationError.blamesSource = false) :
    (xs.foldl replay p).errors.any ConfigurationError.blamesSource = false := by
  induction xs generalizing p with
  | nil => exact h
  | cons x xs ih =>
    refine ih (fun y hy => hxs y (List.mem_cons_of_mem x hy)) ?_
    rw [replay_errors, List.any_append, h, hxs x List.mem_cons_self p]
    rfl

/-! ### Requests that bring none -/

theorem schemaFaults_blamesSource (p : Plan) (name : String) :
    (p.schemaFaults name).any ConfigurationError.blamesSource = false := by
  unfold schemaFaults
  split
  · rfl
  · split <;> rfl

theorem scopeFaults_blamesSource (schema : Option String) :
    (scopeFaults schema).any ConfigurationError.blamesSource = false := by
  unfold scopeFaults
  split <;> rfl

theorem sourceFaults_blamesSource (source : ExtensionSource) :
    (sourceFaults source).any ConfigurationError.blamesSource = false := by
  cases source with
  | text sdl => rw [sourceFaults]; split <;> rfl
  | file path => rw [sourceFaults]; split <;> rfl

theorem nameFaults_blamesSource (text : String) :
    (nameFaults text).any ConfigurationError.blamesSource = false := by
  unfold nameFaults
  split
  · rfl
  · split <;> rfl

theorem flatMap_nameFaults_blamesSource (names : List String) :
    (names.flatMap nameFaults).any ConfigurationError.blamesSource = false := by
  simp only [List.any_flatMap, nameFaults_blamesSource, List.any_eq_false]
  simp

theorem ruleFaults_blamesSource (names : List String) (schema : Option String) :
    (ruleFaults names schema).any ConfigurationError.blamesSource = false := by
  unfold ruleFaults
  split
  · exact scopeFaults_blamesSource schema
  · exact flatMap_nameFaults_blamesSource names

theorem plainRequest_blamesSource (p : Plan) (e : SchemaEntry) :
    (p.faultsOf e.plainRequest).any ConfigurationError.blamesSource = false := by
  rw [SchemaEntry.plainRequest]
  cases oneSource SchemaSource.text SchemaSource.file e.sdl e.file with
  | some source => exact p.schemaFaults_blamesSource e.name
  | none => rfl

end Plan

namespace Configuration

variable {c : Configuration}

theorem mem_laterRequests_iff (c : Configuration) {x : Except (List ConfigurationError) Request} :
    x ∈ c.laterRequests ↔
      (∃ e ∈ c.extensions, e.request = x) ∨ ∃ e ∈ c.rewrites, e.request = x := by
  rw [laterRequests, List.mem_append, List.mem_map, List.mem_map]

theorem isSchema_of_mem_laterRequests (c : Configuration) {r : Request}
    (h : .ok r ∈ c.laterRequests) : r.isSchema = false := by
  obtain ⟨⟨schema, sdl, file⟩, -, he⟩ | ⟨e, -, he⟩ := c.mem_laterRequests_iff.mp h
  · cases sdl <;> cases file <;> cases he <;> rfl
  · cases e with
    | removeType schema type => cases he; rfl
    | removeRootTypes schema => cases he; rfl
    | renameType schema old new => cases he; rfl
    | removeField schema type field =>
      rw [RewriteEntry.request] at he
      split at he <;> cases he
      rfl
    | renameField schema type field new =>
      rw [RewriteEntry.request] at he
      split at he <;> cases he
      rfl

theorem blamesSource_of_mem_laterRequests (c : Configuration) {es : List ConfigurationError}
    (h : .error es ∈ c.laterRequests) : es.any ConfigurationError.blamesSource = false := by
  obtain ⟨⟨schema, sdl, file⟩, -, he⟩ | ⟨e, -, he⟩ := c.mem_laterRequests_iff.mp h
  · cases sdl <;> cases file <;> cases he <;> rfl
  · cases e with
    | removeType schema type => cases he
    | removeRootTypes schema => cases he
    | renameType schema old new => cases he
    | removeField schema type field =>
      rw [RewriteEntry.request] at he
      split at he <;> cases he
      exact flatMap_nameFaults_blamesSource _
    | renameField schema type field new =>
      rw [RewriteEntry.request] at he
      split at he <;> cases he
      exact flatMap_nameFaults_blamesSource _

end Configuration

namespace Plan

theorem faults_blamesSource {r : Request} (hr : r.isSchema = false) (p : Plan) :
    (r.faults p).any ConfigurationError.blamesSource = false := by
  cases r with
  | schemaText name sdl => cases hr
  | schemaFile name path => cases hr
  | remoteSchema name transport => cases hr
  | schema name source => cases hr
  | extension scope source =>
    rw [Request.faults]
    split
    · exact scopeFaults_blamesSource scope
    · exact sourceFaults_blamesSource source
  | removeRootTypes scope => exact ruleFaults_blamesSource [] scope
  | removeType scope type => exact ruleFaults_blamesSource [type] scope
  | removeField scope field => exact ruleFaults_blamesSource [] scope
  | renameType scope old new => exact ruleFaults_blamesSource [old, new] scope
  | renameField scope field new => exact ruleFaults_blamesSource [new] scope
  | handler kind priority h => rfl

theorem faultsOf_blamesSource {c : Configuration} {x : Except (List ConfigurationError) Request}
    (hx : x ∈ c.laterRequests) (p : Plan) :
    (p.faultsOf x).any ConfigurationError.blamesSource = false := by
  cases x with
  | ok r => exact faults_blamesSource (c.isSchema_of_mem_laterRequests hx) p
  | error es => exact c.blamesSource_of_mem_laterRequests hx

/-- A schema without text or path is refused with an error about its source. -/
theorem exists_replay_of_isVoid {e : SchemaEntry} (h : e.isVoid = true) :
    ∃ error : ConfigurationError, error.blamesSource = true ∧
      ∀ p : Plan, p.replay e.request = p.note [error] := by
  obtain ⟨name, sdl, file⟩ := e
  cases sdl with
  | none =>
    cases file with
    | none => cases h
    | some path => exact ⟨.emptyArgument (.schemaPath name), rfl, fun p => if_pos h⟩
  | some sdl =>
    cases file with
    | none => exact ⟨.emptyArgument (.schemaText name), rfl, fun p => if_pos h⟩
    | some path => cases h

/-! ## Extensions and rules -/

/-- What a plan has besides its schemas. -/
def beyondSchemas (p : Plan) : List (Option String × ExtensionSource) × List Rewriter :=
  (p.extensions, p.rewriters)

theorem beyondSchemas_answer_schema (p : Plan) (es : List ConfigurationError) (name : String)
    (source : SchemaSource) :
    (p.answer es (some (.schema name source))).beyondSchemas = p.beyondSchemas := by
  cases es <;> rfl

theorem beyondSchemas_answer {p q : Plan} (h : p.beyondSchemas = q.beyondSchemas)
    (es : List ConfigurationError) (i : Option Item) :
    (p.answer es i).beyondSchemas = (q.answer es i).beyondSchemas := by
  obtain ⟨hextensions, hrewriters⟩ := Prod.mk.inj h
  cases es with
  | cons e es => exact h
  | nil =>
    cases i with
    | none => exact h
    | some i => cases i <;> simp [answer, append, beyondSchemas, hextensions, hrewriters]

theorem beyondSchemas_plainRequest (p : Plan) (e : SchemaEntry) :
    (p.replay e.plainRequest).beyondSchemas = p.beyondSchemas := by
  rw [SchemaEntry.plainRequest]
  cases oneSource SchemaSource.text SchemaSource.file e.sdl e.file with
  | none => rfl
  | some source =>
    rw [replay, register_eq]
    exact p.beyondSchemas_answer_schema _ e.name source

theorem beyondSchemas_request (p : Plan) (e : SchemaEntry) :
    (p.replay e.request).beyondSchemas = p.beyondSchemas := by
  by_cases h : e.isVoid = true
  · obtain ⟨error, -, hreplay⟩ := exists_replay_of_isVoid h
    rw [hreplay]
    rfl
  · rw [← p.replay_plainRequest (eq_false_of_ne_true h), beyondSchemas_plainRequest]

/-- What is asked for besides schemas is answered alike in plans that differ in their schemas. -/
theorem beyondSchemas_replay {c : Configuration} {p q : Plan}
    (h : p.beyondSchemas = q.beyondSchemas) {x : Except (List ConfigurationError) Request}
    (hx : x ∈ c.laterRequests) : (p.replay x).beyondSchemas = (q.replay x).beyondSchemas := by
  cases x with
  | error es => exact h
  | ok r =>
    rw [replay, replay, register_eq, register_eq,
      faults_congr (c.isSchema_of_mem_laterRequests hx) p q]
    exact beyondSchemas_answer h _ _

theorem beyondSchemas_foldl {xs : List SchemaEntry}
    {request : SchemaEntry → Except (List ConfigurationError) Request}
    (h : ∀ (p : Plan) (e : SchemaEntry), (p.replay (request e)).beyondSchemas = p.beyondSchemas)
    (p : Plan) : ((xs.map request).foldl replay p).beyondSchemas = p.beyondSchemas := by
  induction xs generalizing p with
  | nil => rfl
  | cons e xs ih => exact (ih _).trans (h p e)

theorem beyondSchemas_foldl_laterRequests (c : Configuration) {p q : Plan}
    (h : p.beyondSchemas = q.beyondSchemas) :
    (c.laterRequests.foldl replay p).beyondSchemas
      = (c.laterRequests.foldl replay q).beyondSchemas := by
  suffices hxs : ∀ xs ⊆ c.laterRequests, ∀ p q : Plan, p.beyondSchemas = q.beyondSchemas →
      (xs.foldl replay p).beyondSchemas = (xs.foldl replay q).beyondSchemas from
    hxs _ (List.Subset.refl _) p q h
  intro xs
  induction xs with
  | nil => exact fun _ p q h => h
  | cons x xs ih =>
    intro hxs p q h
    exact ih (fun y hy => hxs (List.mem_cons_of_mem x hy)) _ _
      (beyondSchemas_replay h (hxs List.mem_cons_self))

end Plan

/-! ## Configurations -/

namespace Plan

theorem foldl_replay_plainRequest {es : List SchemaEntry} (h : ∀ e ∈ es, e.isVoid = false)
    (p : Plan) :
    (es.map SchemaEntry.plainRequest).foldl replay p
      = (es.map SchemaEntry.request).foldl replay p := by
  induction es generalizing p with
  | nil => rfl
  | cons e es ih =>
    rw [List.map_cons, List.map_cons, List.foldl_cons, List.foldl_cons,
      p.replay_plainRequest (h e List.mem_cons_self),
      ih fun e he => h e (List.mem_cons_of_mem _ he)]

/-- A schema without text or path leaves an error about its source in the plan of the requests. -/
theorem exists_mem_errors_of_isVoid {es : List SchemaEntry} {e : SchemaEntry} (he : e ∈ es)
    (hvoid : e.isVoid = true) (p : Plan) :
    ∃ error ∈ ((es.map SchemaEntry.request).foldl replay p).errors, error.blamesSource = true := by
  obtain ⟨before, after, rfl⟩ := List.append_of_mem he
  obtain ⟨error, herror, hreplay⟩ := exists_replay_of_isVoid hvoid
  refine ⟨error, ?_, herror⟩
  rw [List.map_append, List.map_cons, List.foldl_append, List.foldl_cons, hreplay]
  exact mem_errors_foldl_replay (List.mem_append_right _ (List.mem_singleton_self error)) _

end Plan

namespace Configuration

/-- A configuration registers schemas without a word about their texts and paths. -/
theorem plan_blamesSource (c : Configuration) :
    c.plan.errors.any ConfigurationError.blamesSource = false := by
  rw [plan_eq]
  refine foldl_replay_blamesSource (fun x hx => faultsOf_blamesSource hx) ?_
  refine foldl_replay_blamesSource (fun x hx p => ?_) rfl
  obtain ⟨e, -, rfl⟩ := List.mem_map.mp hx
  exact plainRequest_blamesSource p e

/-- The plan of a configuration has the extensions and the rules of its requests. It is the plan of
its requests, with the same schemas and errors, exactly when no schema of the configuration has a
blank text or an empty path for its one source. -/
theorem plan_eq_replayed_iff (c : Configuration) :
    (c.plan.extensions = c.replayed.extensions ∧ c.plan.rewriters = c.replayed.rewriters) ∧
      (c.plan = c.replayed ↔ ∀ e ∈ c.schemas, e.isVoid = false) := by
  constructor
  · have hbeyond : c.plan.beyondSchemas = c.replayed.beyondSchemas := by
      rw [c.plan_eq, c.replayed_eq]
      refine beyondSchemas_foldl_laterRequests c ?_
      rw [beyondSchemas_foldl beyondSchemas_plainRequest,
        beyondSchemas_foldl beyondSchemas_request]
    exact Prod.mk.inj hbeyond
  · constructor
    · intro heq e he
      cases hvoid : e.isVoid with
      | false => rfl
      | true =>
        -- its error about the source is in one of the plans only
        obtain ⟨error, hmem, herror⟩ := exists_mem_errors_of_isVoid he hvoid .empty
        have hmem : error ∈ c.plan.errors := by
          rw [heq, c.replayed_eq]
          exact mem_errors_foldl_replay hmem _
        exact absurd herror (List.any_eq_false.mp c.plan_blamesSource error hmem)
    · intro h
      rw [c.plan_eq, c.replayed_eq, foldl_replay_plainRequest h]

end Configuration

/-- A configuration with one schema that has nothing but a blank in its text. -/
def blankPier : Configuration := ⟨[⟨"pier", some " ", none⟩], [], []⟩

/-- The pier is registered without an error, and its request is refused. -/
theorem not_plan_eq_replayed_blankPier :
    blankPier.plan ≠ blankPier.replayed ∧ blankPier.plan.schemas = [("pier", .text " ")] ∧
      blankPier.plan.errors = [] ∧ blankPier.replayed.schemas = [] ∧
      blankPier.replayed.errors = [.emptyArgument (.schemaText "pier")] := by
  refine ⟨fun h => ?_, rfl, rfl, rfl, rfl⟩
  cases congrArg Plan.errors h

end SchemaWeave
