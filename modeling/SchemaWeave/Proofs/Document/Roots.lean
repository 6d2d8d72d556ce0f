import SchemaWeave.Proofs.Document.RoundTrip
import SchemaWeave.Proofs.Keyed.Extension

/-!
# Entry points of a document read back

A document may say which types are entry points, and leave out types that have the canonical
names. The document that is written for such a schema says it again only where an entry point
has another name. So an entry point can come back that the schema does not have, behind an object
type of the canonical name, and one that has no object type is lost.
-/

namespace SchemaWeave

open Sdl

namespace Schema

/-- The schemas that documents give: each is read from one, or extends another by some. -/
inductive Documented : Schema → Prop where
  | read {name : String} {x : Document} {s : Schema} (h : ofDocument name x = .ok s) : Documented s
  | extended {s s' : Schema} {xs : List Document} (hs : Documented s) (h : s.extendBy xs = .ok s') :
      Documented s'

theorem Documented.keyed {s : Schema} (h : s.Documented) : s.Keyed := by
  induction h with
  | read h => exact ofDocument_keyed h
  | extended _ h ih => exact extendBy_keyed ih h

/-- The document of a schema that documents give is read without faults. An entry point comes
back as it is exactly when the document has a `schema` definition, or the entry point is set just
when there is an object type of its canonical name. -/
theorem Documented.get_ofDocument_toDocument {s : Schema} (h : s.Documented) :
    ∃ s', ofDocument s.name s.toDocument = .ok s' ∧
      ∀ op, s'.roots.get op = s.roots.get op ↔ s.needsNode = true ∨ s.RootByName op := by
  refine ⟨_, ofDocument_toDocument_eq h.keyed, fun op => ?_⟩
  cases hnode : s.needsNode with
  | true => simp
  | false =>
    simp only [Bool.false_eq_true, if_false, false_or]
    exact inferRoots_get_eq_iff hnode op

end Schema

/-- A shop with object types that have one field each. -/
def shop (roots : RootOperations) (types : List Name) : Schema :=
  let goods : Name := ⟨"goods", by decide⟩
  let object (n : Name) : TypeDefinition :=
    ⟨n, none, [], .object .empty (.ofList [(goods, .ofType goods (.named n))])⟩
  { Schema.empty "shop" with
    roots := roots
    types := .ofList (types.map fun n => (n, object n)) }

/-- The definition of an object type of the shop. -/
def shopNode (n : Name) : Definition :=
  .type ⟨n, none, [], .object [] [⟨⟨"goods", by decide⟩, none, [], .named n, []⟩]⟩

/-- An object type with a canonical name that an extension adds is no entry point, and becomes
one when the document of the shop is read. The other entry point comes back as it is. -/
theorem get_ofDocument_toDocument_shop :
    let query := RootOperation.query.canonicalName
    let mutation := RootOperation.mutation.canonicalName
    let before := shop ⟨some query, none, none⟩ [query]
    let after := shop ⟨some query, none, none⟩ [query, mutation]
    Schema.ofDocument "shop" ⟨[shopNode query]⟩ = .ok before ∧
      before.extendBy [⟨[shopNode mutation]⟩] = .ok after ∧ after.Documented ∧
      ∃ s', Schema.ofDocument after.name after.toDocument = .ok s' ∧
        s'.roots.get .query = some query ∧ s'.roots.get .mutation ≠ none := by
  intro query mutation before after
  have hread : Schema.ofDocument "shop" ⟨[shopNode query]⟩ = .ok before := by decide
  have hextended : before.extendBy [⟨[shopNode mutation]⟩] = .ok after := by decide
  have hafter : after.Documented := .extended (.read hread) hextended
  obtain ⟨s', hs', hroots⟩ := hafter.get_ofDocument_toDocument
  refine ⟨hread, hextended, hafter, s', hs', (hroots .query).mpr (.inr (by decide)), fun h => ?_⟩
  exact absurd ((hroots .mutation).mp h) (by decide)

/-- A shop that says which type is its entry point, beside an ordinary type with the canonical
name of another one, comes back from its document with both as entry points. -/
theorem get_ofDocument_toDocument_ne_shop :
    let query := RootOperation.query.canonicalName
    let mutation := RootOperation.mutation.canonicalName
    let s := shop ⟨some query, none, none⟩ [query, mutation]
    let x : Document := ⟨[.schema ⟨none, [], [(.query, query)]⟩, shopNode query, shopNode mutation]⟩
    Schema.ofDocument "shop" x = .ok s ∧
      Schema.ofDocument s.name s.toDocument
        = .ok (shop ⟨some query, some mutation, none⟩ [query, mutation]) := by
  decide

end SchemaWeave
