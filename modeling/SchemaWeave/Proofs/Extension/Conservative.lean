import SchemaWeave.Proofs.Extension.Growth

/-!
# Extensions are conservative

What documents extend keeps everything it has: it is a beginning of what they give, element by
element, and no type changes its kind. A type changes only through an `extend` form that names it.
-/

namespace SchemaWeave

open Sdl

/-- Whether a document has an `extend` form for a type. -/
def Sdl.Document.extendsType (x : Document) (type : Name) : Bool :=
  x.definitions.any fun y => match y with
    | .extendType e => e.name = type
    | _ => false

theorem TypeBody.GrowsTo.kind_eq {a b : TypeBody} (h : a.GrowsTo b) : b.kind = a.kind := by
  cases a <;> cases b <;> try exact h.elim
  all_goals rfl

namespace Schema

variable {s s' : Schema} {type : Name} {d : TypeDefinition}

/-! ## Types that a step leaves alone -/

/-- A definition changes no type that is there. -/
theorem define_get? (h : s.types.get? type = some d) (x : Definition) :
    (s.define x).1.types.get? type = some d := by
  cases x with
  | executable => exact h
  | schema node => exact h
  | extendSchema e => exact h
  | extendType e => exact h
  | directive node =>
    unfold define
    simp only
    split
    · exact h
    · exact h
  | type node =>
    unfold define
    simp only
    split
    · exact h
    · next hnew =>
      have hne : type ≠ (typeOfNode node).1.name := by
        rintro rfl
        exact hnew (Table.contains_iff.mpr (Table.mem_keys_of_get? h))
      show (s.types.insert _ _).get? type = some d
      rw [Table.get?_insert, if_neg hne, h]

/-- An `extend` form changes only the type that it names. -/
theorem extendType_get?_of_ne (s : Schema) {e : TypeExtension} (hne : type ≠ e.name) :
    (s.extendType e).1.types.get? type = s.types.get? type := by
  unfold extendType
  simp only
  split
  · rfl
  · split
    · show (s.types.insert _ _).get? type = _
      rw [Table.get?_insert, if_neg hne]
    · rfl

theorem extend_get? (s : Schema) {x : Definition}
    (hx : ∀ e, x = .extendType e → e.name ≠ type) :
    (s.extend x).1.types.get? type = s.types.get? type := by
  cases x with
  | extendType e => exact extendType_get?_of_ne s (hx e rfl).symm
  | extendSchema e => rfl
  | executable => rfl
  | schema node => rfl
  | directive node => rfl
  | type node => rfl

/-! ## Documents -/

theorem addDocument_get? {x : Document} (hx : x.extendsType type = false)
    (h : s.types.get? type = some d) : (s.addDocument x).1.types.get? type = some d := by
  have hnamed (e : TypeExtension) (he : .extendType e ∈ x.definitions) : e.name ≠ type := by
    intro hname
    have hany : x.extendsType type = true :=
      List.any_eq_true.mpr ⟨_, he, decide_eq_true hname⟩
    rw [hx] at hany
    cases hany
  have hdefined : (collect define s x.definitions).1.types.get? type = some d :=
    collect_induct (P := fun s => s.types.get? type = some d) (fun _ y hs => define_get? hs y) _ h
  refine collect_induct_of_mem (P := fun s => s.types.get? type = some d) (fun s y hy hs => ?_)
    hdefined
  rw [extend_get? s, hs]
  rintro e rfl
  exact hnamed e hy

/-- A type that no document extends stays as it is. -/
theorem extendBy_get? {xs : List Document} (h : s.extendBy xs = .ok s')
    (hd : s.types.get? type = some d) (hxs : ∀ x ∈ xs, x.extendsType type = false) :
    s'.types.get? type = some d := by
  rw [← (extendBy_eq_ok h).1]
  exact collect_induct_of_mem (P := fun s => s.types.get? type = some d)
    (fun _ x hx hs => addDocument_get? (hxs x hx) hs) hd

/-- What documents extend is a beginning of what they give. Its types stay under their names, with
their kinds, and a type that no document extends stays as it is. -/
theorem extendBy_conservative {xs : List Document} (h : s.extendBy xs = .ok s') :
    s.GrowsTo s' ∧
    ∀ type d, s.types.get? type = some d → ∃ d', s'.types.get? type = some d' ∧
      d.GrowsTo d' ∧ d'.kind = d.kind ∧ ((∀ x ∈ xs, x.extendsType type = false) → d' = d) := by
  have hgrows := extendBy_growsTo h
  refine ⟨hgrows, fun type d hd => ?_⟩
  obtain ⟨d', hd', hdgrows⟩ := hgrows.types type d hd
  refine ⟨d', hd', hdgrows, hdgrows.body.kind_eq, fun hxs => ?_⟩
  exact Option.some.inj (hd'.symm.trans (extendBy_get? h hd hxs))

end Schema

/-- A garden with plants and beds. -/
def garden : Schema :=
  let plant : Name := ⟨"Plant", by decide⟩
  let bed : Name := ⟨"Bed", by decide⟩
  let grows : Name := ⟨"grows", by decide⟩
  let sunny : Name := ⟨"SUNNY", by decide⟩
  { Schema.empty "garden" with
    types := .ofList [
      (plant, ⟨plant, none, [], .object .empty (.ofList [(grows, .ofType grows (.named bed))])⟩),
      (bed, ⟨bed, none, [], .enum (.ofList [(sunny, ⟨sunny, none, []⟩)])⟩)] }

/-- A first document extends plants and defines gardeners, and a second extends the gardeners. -/
def gardenDocuments : List Document :=
  let plant : Name := ⟨"Plant", by decide⟩
  let gardener : Name := ⟨"Gardener", by decide⟩
  let node (field : Name) (type : Name) : FieldNode := ⟨field, none, [], .named type, []⟩
  [⟨[.extendType ⟨plant, [], .object [] [node ⟨"tended", by decide⟩ gardener]⟩,
      .type ⟨gardener, none, [], .object [] [node ⟨"tends", by decide⟩ plant]⟩]⟩,
    ⟨[.extendType ⟨gardener, [], .object [] [node ⟨"rests", by decide⟩ ⟨"Bed", by decide⟩]⟩,
      .extendSchema ⟨[], [(.query, gardener)]⟩]⟩]

/-- The garden keeps what it has, and its beds stay as they are. -/
theorem extendBy_conservative_garden :
    ∃ s', garden.extendBy gardenDocuments = .ok s' ∧ garden.GrowsTo s' ∧
      ∃ d, garden.types.get? ⟨"Bed", by decide⟩ = some d ∧
        s'.types.get? ⟨"Bed", by decide⟩ = some d := by
  obtain ⟨hgrows, htypes⟩ := Schema.extendBy_conservative
    (rfl : garden.extendBy gardenDocuments = .ok _)
  obtain ⟨d', hd', -, -, hsame⟩ := htypes ⟨"Bed", by decide⟩ _ rfl
  have hbed := hsame (by decide)
  exact ⟨_, rfl, hgrows, _, rfl, hbed ▸ hd'⟩

end SchemaWeave
