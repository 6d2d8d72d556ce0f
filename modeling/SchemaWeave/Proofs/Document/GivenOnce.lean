import SchemaWeave.Proofs.Document.Given
import SchemaWeave.Proofs.Extension.Commuting

/-!
# Documents that give everything once

A step through a document meets no fault exactly when what it gives is neither repeated nor there
already, and it makes the schema give just that in addition. Both hold of a whole pass once they
hold of every step. So a document is accepted exactly when it gives every part once and its `extend`
forms find their types, but for one kind of part: an interface that a definition repeats is taken
once and is no fault.
-/

namespace SchemaWeave

open Sdl

/-! ## Parts of a schema -/

/-- What stands by itself and has parts inside it. -/
inductive Home where
  | type (type : Name)
  | directive (directive : Name)
  | root (operation : RootOperation)
deriving DecidableEq

def ArgumentOwner.home : ArgumentOwner → Home
  | field t _ => .type t
  | directive d => .directive d

def Given.home : Given → Home
  | type t => .type t
  | directive d => .directive d
  | field t _ => .type t
  | argument owner _ => owner.home
  | enumValue t _ => .type t
  | member t _ => .type t
  | interface t _ => .type t
  | root op => .root op

theorem Given.eq_root_of_home {g : Given} {op : RootOperation} (h : g.home = .root op) :
    g = .root op := by
  cases g with
  | root op' => exact congrArg root (Home.root.inj h)
  | argument owner a => cases owner <;> cases h
  | _ => cases h

theorem home_of_mem_given_fields {type : Name} {fields : List FieldNode} {g : Given}
    (h : g ∈ fields.flatMap (FieldNode.given type)) : g.home = .type type := by
  obtain ⟨f, -, hf⟩ := List.mem_flatMap.mp h
  rcases mem_given_field hf with rfl | ⟨a, rfl⟩ <;> rfl

theorem Sdl.Body.home_of_mem_given {type : Name} {b : Body} {g : Given} (h : g ∈ b.given type) :
    g.home = .type type := by
  have hmap {c : Name → Given} {l : List Name} (hc : ∀ n, (c n).home = .type type)
      (hg : g ∈ l.map c) : g.home = .type type := by
    obtain ⟨n, -, rfl⟩ := List.mem_map.mp hg
    exact hc n
  cases b with
  | scalar => cases h
  | object is fields =>
    exact (List.mem_append.mp h).elim (hmap fun _ => rfl) home_of_mem_given_fields
  | interface is fields =>
    exact (List.mem_append.mp h).elim (hmap fun _ => rfl) home_of_mem_given_fields
  | union members => exact hmap (fun _ => rfl) h
  | enum values => exact hmap (fun _ => rfl) h
  | inputObject fields => exact hmap (fun _ => rfl) h

theorem Sdl.Body.ne_type_of_mem_given {type n : Name} {b : Body} : Given.type n ∉ b.given type := by
  cases b <;> simp [given, FieldNode.given, ArgumentOwner.given]

theorem Sdl.DirectiveNode.home_of_mem_given {node : DirectiveNode} {g : Given}
    (h : g ∈ (Definition.directive node).given) : g.home = .directive node.name := by
  rcases List.mem_cons.mp h with rfl | h
  · rfl
  · obtain ⟨a, -, rfl⟩ := List.mem_map.mp h
    rfl

namespace Schema

variable {s : Schema} {g : Given}

/-- Whether a schema has a part, given its types and directives as they are written. -/
def Gives (s : Schema) (g : Given) : Prop :=
  match g.home with
  | .type n => ∃ d, s.types.get? n = some d ∧ g ∈ (Definition.type d.toNode).given
  | .directive n =>
    ∃ d, s.directiveDefinitions.get? n = some d ∧ g ∈ (Definition.directive d.toNode).given
  | .root op => (s.roots.get op).isSome

theorem gives_iff_of_type {n : Name} (h : g.home = .type n) :
    s.Gives g ↔ ∃ d, s.types.get? n = some d ∧ g ∈ (Definition.type d.toNode).given := by
  simp only [Gives, h]

theorem gives_iff_of_directive {n : Name} (h : g.home = .directive n) :
    s.Gives g ↔
      ∃ d, s.directiveDefinitions.get? n = some d ∧ g ∈ (Definition.directive d.toNode).given := by
  simp only [Gives, h]

theorem gives_iff_of_root {op : RootOperation} (h : g.home = .root op) :
    s.Gives g ↔ (s.roots.get op).isSome := by
  simp only [Gives, h]

theorem not_gives_empty (name : String) (g : Given) : ¬ (empty name).Gives g := by
  unfold Gives
  cases g.home with
  | type n => exact fun ⟨d, hd, _⟩ => by cases hd
  | directive n => exact fun ⟨d, hd, _⟩ => by cases hd
  | root op => cases op <;> exact Bool.false_ne_true

/-- A type that is put into a schema decides which of its parts there are, and none else. -/
theorem gives_insertType (n : Name) (d : TypeDefinition) :
    { s with types := s.types.insert n d }.Gives g ↔
      if g.home = .type n then g ∈ (Definition.type d.toNode).given else s.Gives g := by
  unfold Gives
  cases g.home with
  | type m =>
    simp only [Table.get?_insert, Home.type.injEq]
    split <;> simp
  | directive m => simp
  | root op => simp

theorem gives_insertDirective (n : Name) (d : DirectiveDefinition) :
    { s with directiveDefinitions := s.directiveDefinitions.insert n d }.Gives g ↔
      if g.home = .directive n then g ∈ (Definition.directive d.toNode).given else s.Gives g := by
  unfold Gives
  cases g.home with
  | type m => simp
  | directive m =>
    simp only [Table.get?_insert, Home.directive.injEq]
    split <;> simp
  | root op => simp

/-! ## Steps -/

/-- Whether a step meets no fault exactly when `p` holds and the parts are neither repeated nor
there already, and then adds these parts. -/
structure Adds (f : Schema → Faulty Schema) (p : Prop) (gs : List Given) (s : Schema) : Prop where
  faults : (f s).2 = [] ↔ p ∧ gs.Nodup ∧ ∀ g ∈ gs, ¬ s.Gives g
  gives : (f s).2 = [] → ∀ g, (f s).1.Gives g ↔ s.Gives g ∨ g ∈ gs

namespace Adds

variable {α : Type} {f h : Schema → Faulty Schema} {step : Schema → α → Faulty Schema} {p q : Prop}
  {gs hs : List Given}

/-- A step that cannot be taken. -/
theorem of_not (hf : (f s).2 ≠ []) (hp : ¬ p) : Adds f p gs s :=
  ⟨iff_of_false hf fun h => hp h.1, fun h => absurd h hf⟩

/-- A step with a part that is there already. -/
theorem of_gives (hf : (f s).2 ≠ []) (hg : g ∈ gs) (hs : s.Gives g) : Adds f p gs s :=
  ⟨iff_of_false hf fun h => h.2.2 g hg hs, fun h => absurd h hf⟩

/-- A step that adds something new with all its parts. -/
theorem of_new (home : Home) (hgs : ∀ g ∈ gs, g.home = home)
    (hs : ∀ g, g.home = home → ¬ s.Gives g) (hfaults : (f s).2 = [] ↔ gs.Nodup)
    (hgives : (f s).2 = [] →
      ∀ g, (f s).1.Gives g ↔ if g.home = home then g ∈ gs else s.Gives g) :
    Adds f True gs s := by
  constructor
  · rw [hfaults, true_and, and_iff_left fun g hg => hs g (hgs g hg)]
  · intro hnil g
    rw [hgives hnil]
    split
    · next hg => exact (or_iff_right (hs g hg)).symm
    · next hg => exact (or_iff_left fun hmem => hg (hgs g hmem)).symm

/-- Two steps, one after the other, add the parts of both. -/
theorem andThen (hf : Adds f p gs s) (hh : (f s).2 = [] → Adds h q hs (f s).1) :
    Adds (fun s => ((h (f s).1).1, (f s).2 ++ (h (f s).1).2)) (p ∧ q) (gs ++ hs) s := by
  constructor
  · rw [List.append_eq_nil_iff, and_congr_right fun hnil => (hh hnil).faults, List.nodup_append',
      List.forall_mem_append]
    constructor
    · rintro ⟨hnil, hq, hnodup, hnew⟩
      obtain ⟨hp, hnodup', hnew'⟩ := hf.faults.mp hnil
      simp only [hf.gives hnil, not_or] at hnew
      exact ⟨⟨hp, hq⟩, ⟨hnodup', hnodup, fun g hg hg' => (hnew g hg').2 hg⟩, hnew',
        fun g hg => (hnew g hg).1⟩
    · rintro ⟨⟨hp, hq⟩, ⟨hnodup', hnodup, hdisjoint⟩, hnew', hnew⟩
      have hnil := hf.faults.mpr ⟨hp, hnodup', hnew'⟩
      simp only [hf.gives hnil, not_or]
      exact ⟨hnil, hq, hnodup, fun g hg => ⟨hnew g hg, fun hg' => hdisjoint hg' hg⟩⟩
  · intro hnil g
    obtain ⟨hnil, hnil'⟩ := List.append_eq_nil_iff.mp hnil
    rw [(hh hnil).gives hnil', hf.gives hnil, List.mem_append, or_assoc]

/-- A row of steps adds the parts of each. `P` is what the steps need, and what they keep. -/
theorem collect {P : Schema → Prop} {p : α → Prop} {given : α → List Given} {l : List α}
    (hP : ∀ s, ∀ a ∈ l, P s → P (step s a).1)
    (hstep : ∀ s, ∀ a ∈ l, P s → Adds (step · a) (p a) (given a) s) (hs : P s) :
    Adds (Schema.collect step · l) (∀ a ∈ l, p a) (l.flatMap given) s := by
  induction l generalizing s with
  | nil => exact ⟨by simp [Schema.collect], by simp [Schema.collect]⟩
  | cons a l ih =>
    have htail := ih (fun s b hb => hP s b (List.mem_cons_of_mem a hb))
      (fun s b hb => hstep s b (List.mem_cons_of_mem a hb)) (hP s a List.mem_cons_self hs)
    rw [List.forall_mem_cons, List.flatMap_cons]
    exact (hstep s a List.mem_cons_self hs).andThen fun _ => htail

/-- Two ways to say what a step needs. -/
theorem congr (hf : Adds f p gs s) (hpq : p ↔ q) : Adds f q gs s :=
  ⟨hf.faults.trans (and_congr_left' hpq), hf.gives⟩

end Adds

/-! ### Definitions -/

/-- A step that leaves everything but entry points alone adds the entry points that it sets. -/
theorem adds_roots {f : Schema → Faulty Schema} {l : List (RootOperation × Name)}
    (hfaults : (f s).2 = (addRoots s.roots l).2) (hroots : (f s).1.roots = (addRoots s.roots l).1)
    (htypes : (f s).1.types = s.types)
    (hdirectives : (f s).1.directiveDefinitions = s.directiveDefinitions) :
    Adds f True ((l.map Prod.fst).map .root) s := by
  constructor
  · rw [hfaults, addRoots_faults_eq_nil_iff, true_and]
    refine and_congr (List.nodup_map_iff fun a b h => by injection h).symm
      (Iff.trans (forall₂_congr fun op _ => ?_) List.forall_mem_map.symm)
    rw [gives_iff_of_root (g := .root op) rfl, Option.not_isSome_iff_eq_none]
  · intro _ g
    have hhome (hg : g ∈ (l.map Prod.fst).map Given.root) : ∃ op, g.home = .root op := by
      obtain ⟨op, -, rfl⟩ := List.mem_map.mp hg
      exact ⟨op, rfl⟩
    cases hg : g.home with
    | type n =>
      rw [gives_iff_of_type hg, gives_iff_of_type hg, htypes, or_iff_left]
      simpa [hg] using mt hhome
    | directive n =>
      rw [gives_iff_of_directive hg, gives_iff_of_directive hg, hdirectives, or_iff_left]
      simpa [hg] using mt hhome
    | root op =>
      obtain rfl := Given.eq_root_of_home hg
      rw [gives_iff_of_root hg, gives_iff_of_root hg, hroots, isSome_get_addRoots]
      simp

theorem gives_type_iff (hs : s.Keyed) {n : Name} : s.Gives (.type n) ↔ n ∈ s.types.keys := by
  rw [gives_iff_of_type (n := n) rfl]
  constructor
  · rintro ⟨d, hd, -⟩
    exact Table.mem_keys_of_get? hd
  · intro h
    obtain ⟨d, hd⟩ := Table.exists_get?_of_mem_keys h
    exact ⟨d, hd, hs.types.name_eq hd ▸ List.mem_cons_self⟩

theorem gives_directive_iff (hs : s.Keyed) {n : Name} :
    s.Gives (.directive n) ↔ n ∈ s.directiveDefinitions.keys := by
  rw [gives_iff_of_directive (n := n) rfl]
  constructor
  · rintro ⟨d, hd, -⟩
    exact Table.mem_keys_of_get? hd
  · intro h
    obtain ⟨d, hd⟩ := Table.exists_get?_of_mem_keys h
    exact ⟨d, hd, hs.directives.of_get? hd ▸ List.mem_cons_self⟩

/-- A type definition adds its parts, with the first mention of every interface. -/
theorem adds_define_type (hs : s.Keyed) (node : TypeNode) :
    Adds (define · (.type node)) True (Definition.type node).interfacesOnce.given s := by
  have hgiven : (Definition.type node).interfacesOnce.given
      = .type node.name :: node.body.interfacesOnce.given node.name := rfl
  by_cases hmem : node.name ∈ s.types.keys
  · exact .of_gives (fun h => not_mem_keys_of_define_type h hmem) List.mem_cons_self
      ((gives_type_iff hs).mpr hmem)
  · refine .of_new (.type node.name) (fun g hg => ?_) (fun g hg => ?_) ?_ fun hnil g => ?_
    · exact (List.mem_cons.mp hg).elim (fun h => h ▸ rfl) Body.home_of_mem_given
    · simp [gives_iff_of_type hg, Table.get?_eq_none_iff.mpr hmem]
    · rw [define_type_of_not_mem hmem, hgiven, List.nodup_cons,
        and_iff_right Body.ne_type_of_mem_given, Body.nodup_given_interfacesOnce_iff]
      rfl
    · rw [define_type_of_not_mem hmem] at hnil ⊢
      refine (gives_insertType node.name _).trans ?_
      have hbody : (typeOfNode node).1.toNode = { node with body := node.body.interfacesOnce } :=
        congrArg (TypeNode.mk node.name node.description node.directives) (toBody_bodyOfNode hnil)
      rw [hbody]
      rfl

theorem adds_define_directive (hs : s.Keyed) (node : DirectiveNode) :
    Adds (define · (.directive node)) True (Definition.directive node).given s := by
  by_cases hmem : node.name ∈ s.directiveDefinitions.keys
  · exact .of_gives (fun h => not_mem_keys_of_define_directive h hmem) List.mem_cons_self
      ((gives_directive_iff hs).mpr hmem)
  · refine .of_new (.directive node.name) (fun g => DirectiveNode.home_of_mem_given)
      (fun g hg => ?_) ?_ fun hnil g => ?_
    · simp [gives_iff_of_directive hg, Table.get?_eq_none_iff.mpr hmem]
    · rw [define_directive_of_not_mem hmem, Definition.given, List.nodup_cons, and_iff_right,
        nodup_given_arguments_iff]
      · rfl
      · simp [ArgumentOwner.given]
    · rw [define_directive_of_not_mem hmem] at hnil ⊢
      refine (gives_insertDirective node.name _).trans ?_
      rw [toNode_directiveOfNode hnil]

/-- A definition is met without faults exactly when it is not executable and its parts, with the
first mention of every interface, are given once and are new. -/
theorem adds_define (hs : s.Keyed) {x : Definition} (hx : x.isExtension = false) :
    Adds (define · x) (x ≠ .executable) x.interfacesOnce.given s := by
  cases x with
  | executable => exact .of_not (List.cons_ne_nil _ _) fun h => h rfl
  | schema node => exact (adds_roots rfl rfl rfl rfl).congr (by simp)
  | directive node => exact (adds_define_directive hs node).congr (by simp)
  | type node => exact (adds_define_type hs node).congr (by simp)
  | extendSchema _ => cases hx
  | extendType _ => cases hx

/-! ### Forms -/

theorem nodup_given_toBody {b : TypeBody} (hb : b.Keyed) (type : Name) :
    (b.toBody.given type).Nodup := by
  refine Body.nodup_given_iff.mpr ⟨?_, by rw [bodyOfNode_toBody type hb]⟩
  cases b with
  | object is fields => exact is.nodup
  | interface is fields => exact is.nodup
  | scalar => exact List.nodup_nil
  | union _ => exact List.nodup_nil
  | enum _ => exact List.nodup_nil
  | inputObject _ => exact List.nodup_nil

theorem kind_toBody (b : TypeBody) : b.toBody.kind = b.kind := by
  cases b <;> rfl

/-- A form meets no fault at a type exactly when it is of the kind of the type and its parts are
given once and are no parts of the type. -/
theorem extendBy_faults_eq_nil_iff_given {d : TypeDefinition} {e : TypeExtension}
    (hd : d.body.Keyed) :
    (d.extendBy e).2 = [] ↔ d.kind = e.body.kind ∧ (e.body.given e.name).Nodup ∧
      ∀ g ∈ e.body.given e.name, g ∉ d.body.toBody.given e.name := by
  rw [TypeDefinition.extendBy_faults_eq_nil_iff]
  refine and_congr_right fun hkind => ?_
  rw [add_faults_eq_nil_iff hd hkind, ← Body.nodup_given_iff,
    (Body.given_append_perm ((kind_toBody d.body).trans hkind) e.name).nodup_iff,
    List.nodup_append', and_iff_right (nodup_given_toBody hd e.name), List.disjoint_comm]
  rfl

/-- A form without faults adds its parts to those of its type. -/
theorem mem_given_extendBy {d : TypeDefinition} {e : TypeExtension} (hname : d.name = e.name)
    (h : (d.extendBy e).2 = []) :
    g ∈ (Definition.type (d.extendBy e).1.toNode).given ↔
      g ∈ (Definition.type d.toNode).given ∨ g ∈ e.body.given e.name := by
  obtain ⟨hkind, hbody, hadd⟩ := TypeDefinition.extendBy_faults_eq_nil_iff.mp h
  rw [TypeDefinition.extendBy_fst hkind]
  show g ∈ .type d.name :: Body.given d.name (TypeBody.toBody _) ↔
    g ∈ .type d.name :: d.body.toBody.given d.name ∨ _
  rw [toBody_add hkind hbody hadd, List.mem_cons, List.mem_cons,
    (Body.given_append_perm ((kind_toBody d.body).trans hkind) d.name).mem_iff, List.mem_append,
    hname, or_assoc]

theorem adds_extendType (hs : s.Keyed) (e : TypeExtension) :
    Adds (extendType · e) (s.HasKind e.name e.body.kind) (e.body.given e.name) s := by
  cases hd : s.types.get? e.name with
  | none =>
    refine .of_not (fun h => ?_) fun ⟨d, hd', _⟩ => by simp [hd] at hd'
    exact Table.get?_eq_none_iff.mp hd (mem_keys_of_extendType h)
  | some d =>
    have hname : d.name = e.name := hs.types.name_eq hd
    have hgives (g) (hg : g.home = .type e.name) :
        s.Gives g ↔ g ∈ (Definition.type d.toNode).given := by
      simp [gives_iff_of_type hg, hd]
    constructor
    · rw [extendType_of_get? hd]
      refine (extendBy_faults_eq_nil_iff_given
        (hs.bodies d (Table.mem_values_of_get? hd))).trans (and_congr ?_ (and_congr_right fun _ => ?_))
      · simp [HasKind, hd]
      · refine forall₂_congr fun g hg => not_congr ?_
        have hne : g ≠ .type d.name := by
          rintro rfl
          exact Body.ne_type_of_mem_given hg
        rw [hgives g (Body.home_of_mem_given hg), ← hname]
        exact (List.mem_cons.trans (or_iff_right hne)).symm
    · intro hnil g
      rw [extendType_of_get? hd] at hnil ⊢
      refine (gives_insertType e.name _).trans ?_
      split
      · next hg => rw [mem_given_extendBy hname hnil, hgives g hg]
      · next hg => exact (or_iff_left fun hmem => hg (Body.home_of_mem_given hmem)).symm

/-- What a form needs of a schema: that the type it names is there, in its kind. -/
def Serves (s : Schema) (x : Definition) : Prop :=
  ∀ e, x = .extendType e → s.HasKind e.name e.body.kind

/-- An `extend` form is met without faults exactly when its type is there and its parts are given
once and are new. -/
theorem adds_extend (hs : s.Keyed) {x : Definition} (hx : x.isExtension = true) :
    Adds (extend · x) (s.Serves x) x.interfacesOnce.given s := by
  cases x with
  | extendType e => exact (adds_extendType hs e).congr (by simp [Serves])
  | extendSchema e => exact (adds_roots rfl rfl rfl rfl).congr (by simp [Serves])
  | executable => cases hx
  | schema _ => cases hx
  | directive _ => cases hx
  | type _ => cases hx

/-! ## Documents -/

theorem hasKind_define_iff {n : Name} {k : TypeKind} {x : Definition} (h : (s.define x).2 = []) :
    (s.define x).1.HasKind n k ↔
      s.HasKind n k ∨ ∃ node, x = .type node ∧ node.name = n ∧ node.body.kind = k := by
  by_cases hx : ∃ node, x = .type node
  · obtain ⟨node, rfl⟩ := hx
    have hnew := not_mem_keys_of_define_type h
    rw [define_type_of_not_mem hnew, HasKind, HasKind, Table.get?_insert]
    by_cases hn : n = node.name
    · subst hn
      simp [Table.get?_eq_none_iff.mpr hnew, typeOfNode_kind]
    · have hn' : node.name ≠ n := fun h => hn h.symm
      simp [hn, hn']
  · have hx' (node) : x ≠ .type node := fun h => hx ⟨node, h⟩
    rw [HasKind, define_types_eq hx']
    refine (or_iff_left ?_).symm
    rintro ⟨node, hnode, -⟩
    exact hx' node hnode

theorem hasKind_collect_define_iff {n : Name} {k : TypeKind} {l : List Definition}
    (h : (collect define s l).2 = []) :
    (collect define s l).1.HasKind n k ↔
      s.HasKind n k ∨ ∃ node, .type node ∈ l ∧ node.name = n ∧ node.body.kind = k := by
  induction l generalizing s with
  | nil => simp [collect]
  | cons x l ih =>
    obtain ⟨hx, hl⟩ := collect_cons_faults_eq_nil_iff.mp h
    refine (ih hl).trans ?_
    rw [hasKind_define_iff hx, or_assoc, ← exists_or]
    simp only [← or_and_right, List.mem_cons, eq_comm (a := x)]

end Schema

namespace Sdl

variable {x : Document}

theorem Body.kind_interfacesOnce (b : Body) : b.interfacesOnce.kind = b.kind := by
  cases b <;> rfl

/-- Only the parts of a document change where every interface of a definition is taken once. -/
theorem Document.givesOnce_interfacesOnce_iff :
    x.interfacesOnce.GivesOnce ↔
      .executable ∉ x.definitions ∧
      (∀ e, .extendType e ∈ x.definitions →
        ∃ node, .type node ∈ x.definitions ∧ node.name = e.name ∧ node.body.kind = e.body.kind) ∧
      (x.definitions.flatMap fun y => y.interfacesOnce.given).Nodup := by
  have hexecutable : .executable ∈ x.interfacesOnce.definitions ↔ .executable ∈ x.definitions := by
    have (y : Definition) : y.interfacesOnce = .executable ↔ y = .executable := by
      cases y <;> simp [Definition.interfacesOnce]
    simp [interfacesOnce, this]
  have hform (e) : .extendType e ∈ x.interfacesOnce.definitions ↔ .extendType e ∈ x.definitions := by
    have (y : Definition) : y.interfacesOnce = .extendType e ↔ y = .extendType e := by
      cases y <;> simp [Definition.interfacesOnce]
    simp [interfacesOnce, this]
  have htype (n : Name) (k : TypeKind) :
      (∃ node, .type node ∈ x.interfacesOnce.definitions ∧ node.name = n ∧ node.body.kind = k) ↔
        ∃ node, .type node ∈ x.definitions ∧ node.name = n ∧ node.body.kind = k := by
    constructor
    · rintro ⟨node, hnode, hname, hkind⟩
      obtain ⟨y, hy, hnode⟩ := List.mem_map.mp hnode
      cases y with
      | type node' =>
        obtain rfl := Definition.type.inj hnode
        exact ⟨node', hy, hname, (Body.kind_interfacesOnce node'.body).symm.trans hkind⟩
      | _ => cases hnode
    · rintro ⟨node, hnode, hname, hkind⟩
      exact ⟨_, List.mem_map.mpr ⟨_, hnode, rfl⟩, hname,
        (Body.kind_interfacesOnce node.body).trans hkind⟩
  have hgiven : x.interfacesOnce.given
      = x.definitions.flatMap fun y => y.interfacesOnce.given := List.flatMap_map ..
  rw [← hgiven]
  simp only [← hexecutable, ← hform, ← htype]
  exact ⟨fun h => ⟨h.notExecutable, h.targets, h.once⟩, fun ⟨h, h', h''⟩ => ⟨h, h', h''⟩⟩

end Sdl

namespace Schema

variable {x : Document}

/-- The definitions of a document and then its `extend` forms add the parts of both. -/
theorem adds_addDocument (name : String) (x : Document) :
    Adds (addDocument · x)
      ((∀ y ∈ x.definitions.filter fun y => !y.isExtension, y ≠ .executable) ∧
        ∀ y ∈ x.definitions.filter Definition.isExtension, ∀ e, y = .extendType e →
          ∃ node, .type node ∈ x.definitions ∧ node.name = e.name ∧ node.body.kind = e.body.kind)
      ((x.definitions.filter fun y => !y.isExtension).flatMap (·.interfacesOnce.given)
        ++ (x.definitions.filter Definition.isExtension).flatMap (·.interfacesOnce.given))
      (empty name) := by
  have hdefine (s : Schema) : collect define s x.definitions
      = collect define s (x.definitions.filter fun y => !y.isExtension) :=
    (collect_filter (fun s y hy => define_eq_self (by simpa using hy)) s x.definitions).symm
  have hextend (s : Schema) : collect extend s x.definitions
      = collect extend s (x.definitions.filter Definition.isExtension) :=
    (collect_filter (fun s y hy => extend_eq_self (x := y) hy) s x.definitions).symm
  refine Adds.andThen (f := (collect define · x.definitions))
    (h := (collect extend · x.definitions)) ?_ fun hnil => ?_
  · simp only [hdefine]
    exact .collect (P := Schema.Keyed) (fun s y _ hs => define_keyed hs y)
      (fun s y hy hs => adds_define hs (by simpa using (List.mem_filter.mp hy).2))
      (Keyed.empty name)
  · -- forms change neither the kinds of the types nor that the schema is keyed
    have hkinds (n k) : (collect define (empty name) x.definitions).1.HasKind n k ↔
        ∃ node, .type node ∈ x.definitions ∧ node.name = n ∧ node.body.kind = k := by
      rw [hasKind_collect_define_iff hnil, or_iff_right]
      rintro ⟨d, hd, -⟩
      cases hd
    simp only [hextend]
    refine .collect (P := fun s => s.Keyed ∧ ∀ n k, s.HasKind n k ↔
        ∃ node, .type node ∈ x.definitions ∧ node.name = n ∧ node.body.kind = k) ?_ ?_
      ⟨collect_induct (P := Schema.Keyed) (fun _ y hs => define_keyed hs y) _ (Keyed.empty name),
        hkinds⟩
    · exact fun s y _ hs => ⟨extend_keyed hs.1 y, fun n k => (hasKind_extend_iff y).trans (hs.2 n k)⟩
    · intro s y hy hs
      refine (adds_extend hs.1 (List.mem_filter.mp hy).2).congr ?_
      exact forall₂_congr fun e _ => hs.2 e.name e.body.kind

/-- A document has no faults exactly when it gives every part once, where every interface of a
definition counts once. -/
theorem addDocument_faults_eq_nil_iff (name : String) :
    ((empty name).addDocument x).2 = [] ↔ x.interfacesOnce.GivesOnce := by
  rw [(adds_addDocument name x).faults, Document.givesOnce_interfacesOnce_iff,
    and_iff_left (fun g _ => not_gives_empty name g), and_assoc]
  refine and_congr ?_ (and_congr ?_ ?_)
  · constructor
    · exact fun h hmem => h _ (List.mem_filter.mpr ⟨hmem, rfl⟩) rfl
    · rintro h y hy rfl
      exact h (List.mem_filter.mp hy).1
  · constructor
    · exact fun h e he => h _ (List.mem_filter.mpr ⟨he, rfl⟩) e rfl
    · rintro h y hy e rfl
      exact h e (List.mem_filter.mp hy).1
  · rw [← List.flatMap_append]
    have hperm := List.filter_append_perm Definition.isExtension x.definitions
    exact ((List.perm_append_comm.trans hperm).flatMap_right _).nodup_iff

theorem exists_ofDocument_iff {name : String} :
    (∃ s, ofDocument name x = .ok s) ↔ x.interfacesOnce.GivesOnce := by
  rw [← addDocument_faults_eq_nil_iff name, ofDocument_eq, extendBy_singleton]
  cases h : ((empty name).addDocument x).2 with
  | nil => simp [Except.map]
  | cons fault faults => simp [Except.map]

end Schema

/-! ## Repeated interfaces -/

namespace Sdl

variable {x : Document}

theorem Document.interfacesOnce_eq_self
    (h : ∀ node, .type node ∈ x.definitions → node.body.interfaces.Nodup) :
    x.interfacesOnce = x := by
  refine congrArg Document.mk ((List.map_congr_left fun y hy => ?_).trans (List.map_id _))
  cases y with
  | type node =>
    exact congrArg (fun b => Definition.type { node with body := b })
      (Body.interfacesOnce_eq_self (h node hy))
  | _ => rfl

theorem Document.GivesOnce.interfaces_nodup (h : x.GivesOnce) {node : TypeNode}
    (hnode : .type node ∈ x.definitions) : node.body.interfaces.Nodup := by
  have hgiven := (List.nodup_flatMap.mp h.once).1 _ hnode
  exact (Body.nodup_given_iff.mp (List.nodup_cons.mp hgiven).2).1

end Sdl

/-- A document is accepted exactly when it gives every part once, where an interface that a
definition repeats counts once. So it gives every part once exactly when it is accepted and no
definition repeats an interface. -/
theorem Schema.exists_ofDocument_iff_givesOnce (name : String) (x : Document) :
    ((∃ s, ofDocument name x = .ok s) ↔ x.interfacesOnce.GivesOnce) ∧
      (x.GivesOnce ↔ (∃ s, ofDocument name x = .ok s) ∧
        ∀ node, .type node ∈ x.definitions → node.body.interfaces.Nodup) := by
  refine ⟨exists_ofDocument_iff, fun h => ?_, fun ⟨hread, hnodup⟩ => ?_⟩
  · have hnodup (node : TypeNode) (hnode : .type node ∈ x.definitions) : node.body.interfaces.Nodup :=
      h.interfaces_nodup hnode
    refine ⟨exists_ofDocument_iff.mpr ?_, hnodup⟩
    rwa [Document.interfacesOnce_eq_self hnodup]
  · rw [exists_ofDocument_iff, Document.interfacesOnce_eq_self hnodup] at hread
    exact hread

/-- A raft that implements an interface twice. -/
def raftDocument : Document :=
  let raft : Name := ⟨"Raft", by decide⟩
  let afloat : Name := ⟨"Afloat", by decide⟩
  let beside : FieldNode := ⟨⟨"beside", by decide⟩, none, [], .named raft, []⟩
  ⟨[.type ⟨afloat, none, [], .interface [] [beside]⟩,
    .type ⟨raft, none, [], .object [afloat, afloat] [beside]⟩]⟩

/-- The raft is accepted with its interface once, although the interface is given twice. The same
interfaces in an `extend` form are a fault. -/
theorem not_givesOnce_raft :
    let afloat : Name := ⟨"Afloat", by decide⟩
    let raft : Name := ⟨"Raft", by decide⟩
    (∃ s, Schema.ofDocument "raft" raftDocument = .ok s) ∧ ¬ raftDocument.GivesOnce ∧
      Schema.ofDocument "raft" ⟨[.type ⟨afloat, none, [], .interface [] []⟩,
        .type ⟨raft, none, [], .object [] []⟩, .extendType ⟨raft, [], .object [afloat, afloat] []⟩]⟩
        = .error [⟨"raft", .interfaceImplemented raft afloat⟩] :=
  ⟨⟨_, rfl⟩, fun h => absurd h.once (by decide), by decide⟩

end SchemaWeave
