import SchemaWeave.Proofs.Merge.Combine
import SchemaWeave.Proofs.Parts

/-!
# What a walk gathers

Combining definitions one after another loses no part of any of them and adds none: under each
name stands the part that the first definition with such a part has. A step says this of two
bodies and a walk of all of them, so that what holds of the parts of the definitions holds of the
parts of the result.
-/

namespace SchemaWeave

/-! ## Unions of tables -/

section Unions

variable {α : Type}

/-- The entry under a name among those of a list, the first one or the others. -/
theorem lookup_cons_eq (n k : Name) (a : α) (l : List (Name × α)) :
    ((k, a) :: l).lookup n = if n = k then some a else l.lookup n := by
  rw [List.lookup_cons]
  by_cases hn : n = k
  · simp [hn]
  · simp [hn, beq_eq_false_iff_ne.mpr hn]

theorem get?_uniteEntries (same : α → α → Bool) (t : Table Name α) (l : List (Name × α))
    (n : Name) : (uniteEntries same t l).1.get? n = (t.get? n).or (l.lookup n) := by
  induction l generalizing t with
  | nil => simp [uniteEntries]
  | cons e l ih =>
    obtain ⟨k, a⟩ := e
    rw [uniteEntries, lookup_cons_eq]
    split
    · next hk =>
      rw [ih, Table.get?_insert]
      by_cases hn : n = k
      · simp [hn, hk]
      · simp [hn]
    · next b hb =>
      refine (ih t).trans ?_
      by_cases hn : n = k
      · simp [hn, hb]
      · simp [hn]

theorem get?_uniteEntries_entries (same : α → α → Bool) (t added : Table Name α) (n : Name) :
    (uniteEntries same t added.entries).1.get? n = (t.get? n).or (added.get? n) :=
  get?_uniteEntries same t added.entries n

theorem get?_uniteTables (t added : Table Name α) (n : Name) :
    (uniteTables t added).get? n = (t.get? n).or (added.get? n) := by
  obtain ⟨l, hl⟩ := added
  show (l.foldl (fun acc e => acc.insertIfNew e.1 e.2) t).get? n = (t.get? n).or (l.lookup n)
  clear hl
  induction l generalizing t with
  | nil => simp
  | cons e l ih =>
    obtain ⟨k, a⟩ := e
    rw [List.foldl_cons, ih, Table.get?_insertIfNew, Option.or_assoc, lookup_cons_eq]
    by_cases hn : n = k
    · simp [hn]
    · simp [hn]

end Unions

/-! ## Bodies -/

namespace TypeBody

/-- Whether a body has exactly the parts of several bodies of its kind, where of several parts of
one name the first counts. -/
structure Gathers (b : TypeBody) (bs : List TypeBody) : Prop where
  kind : ∀ c ∈ bs, c.kind = b.kind
  field : ∀ n, b.field? n = bs.findSome? (·.field? n)
  inputField : ∀ n, b.inputField? n = bs.findSome? (·.inputField? n)
  enumValue : ∀ n, b.enumValue? n = bs.findSome? (·.enumValue? n)
  interfaces : ∀ n, n ∈ b.interfaceNames ↔ ∃ c ∈ bs, n ∈ c.interfaceNames
  members : ∀ n, n ∈ b.memberNames ↔ ∃ c ∈ bs, n ∈ c.memberNames

namespace Gathers

variable {b c u r : TypeBody} {bs : List TypeBody}

theorem self (b : TypeBody) : b.Gathers [b] where
  kind := by simp
  field := by simp
  inputField := by simp
  enumValue := by simp
  interfaces := by simp
  members := by simp

/-- What gathers from two bodies may stand for them among others. -/
theorem cons (hu : u.Gathers [b, c]) (hr : r.Gathers (u :: bs)) : r.Gathers (b :: c :: bs) := by
  have hfirst {α : Type} (read : TypeBody → Option α) (h : read u = [b, c].findSome? read)
      (h' : read r = (u :: bs).findSome? read) : read r = (b :: c :: bs).findSome? read := by
    rw [h', List.findSome?_cons, h]
    cases hb : read b <;> cases hc : read c <;> simp [hb, hc]
  have hmem (read : TypeBody → List Name) {n : Name} (h : n ∈ read u ↔ ∃ x ∈ [b, c], n ∈ read x)
      (h' : n ∈ read r ↔ ∃ x ∈ u :: bs, n ∈ read x) :
      n ∈ read r ↔ ∃ x ∈ b :: c :: bs, n ∈ read x := by
    rw [h', List.exists_mem_cons_iff, h]
    simp [or_assoc]
  refine ⟨?_, fun n => hfirst (·.field? n) (hu.field n) (hr.field n),
    fun n => hfirst (·.inputField? n) (hu.inputField n) (hr.inputField n),
    fun n => hfirst (·.enumValue? n) (hu.enumValue n) (hr.enumValue n),
    fun n => hmem interfaceNames (hu.interfaces n) (hr.interfaces n),
    fun n => hmem memberNames (hu.members n) (hr.members n)⟩
  have hur : u.kind = r.kind := hr.kind u (by simp)
  intro x hx
  rcases List.mem_cons.mp hx with rfl | hx
  · exact (hu.kind x (by simp)).trans hur
  · rcases List.mem_cons.mp hx with rfl | hx
    · exact (hu.kind x (by simp)).trans hur
    · exact hr.kind x (by simp [hx])

end Gathers

/-! ## A step -/

theorem gathers_pair {b c r : TypeBody} (hb : b.kind = r.kind) (hc : c.kind = r.kind)
    (hfield : ∀ n, r.field? n = (b.field? n).or (c.field? n))
    (hinput : ∀ n, r.inputField? n = (b.inputField? n).or (c.inputField? n))
    (hvalue : ∀ n, r.enumValue? n = (b.enumValue? n).or (c.enumValue? n))
    (hinterfaces : ∀ n, n ∈ r.interfaceNames ↔ n ∈ b.interfaceNames ∨ n ∈ c.interfaceNames)
    (hmembers : ∀ n, n ∈ r.memberNames ↔ n ∈ b.memberNames ∨ n ∈ c.memberNames) :
    r.Gathers [b, c] := by
  have hfirst {α : Type} (read : TypeBody → Option α) :
      (read b).or (read c) = [b, c].findSome? read := by
    cases hb : read b <;> cases hc : read c <;> simp [hb, hc]
  exact ⟨by simp [hb, hc], fun n => (hfield n).trans (hfirst (·.field? n)),
    fun n => (hinput n).trans (hfirst (·.inputField? n)),
    fun n => (hvalue n).trans (hfirst (·.enumValue? n)),
    fun n => by simp [hinterfaces], fun n => by simp [hmembers]⟩

theorem unite?_gathers {b c r : TypeBody} {differing : List Name}
    (h : b.unite? c = some (r, differing)) : r.Gathers [b, c] := by
  unfold unite? at h
  split at h
  · cases h
    exact gathers_pair rfl rfl (by simp [get?_uniteEntries_entries]) (by simp) (by simp)
      (by simp [interfaceNames, Distinct.mem_append]) (by simp [memberNames])
  · cases h
    exact gathers_pair rfl rfl (by simp [get?_uniteEntries_entries]) (by simp) (by simp)
      (by simp [interfaceNames, Distinct.mem_append]) (by simp [memberNames])
  · cases h
    exact gathers_pair rfl rfl (by simp) (by simp [get?_uniteEntries_entries]) (by simp)
      (by simp [interfaceNames]) (by simp [memberNames])
  · cases h

theorem combine?_gathers {b c r : TypeBody} (h : b.combine? c = some r) : r.Gathers [b, c] := by
  unfold combine? at h
  split at h
  · cases h
    exact gathers_pair rfl rfl (by simp) (by simp) (by simp) (by simp [interfaceNames])
      (by simp [memberNames])
  · cases h
    exact gathers_pair rfl rfl (by simp) (by simp) (by simp [get?_uniteTables])
      (by simp [interfaceNames]) (by simp [memberNames])
  · cases h
    exact gathers_pair rfl rfl (by simp) (by simp) (by simp) (by simp [interfaceNames])
      (by simp [memberNames, Distinct.mem_append])
  · obtain ⟨⟨body, differing⟩, hu, h⟩ := Option.bind_eq_some_iff.mp h
    split at h
    · cases h
      exact unite?_gathers hu
    · cases h

end TypeBody

/-! ## A walk -/

/-- What is combined has exactly the parts of the definitions. -/
theorem TypeDefinition.combineAll?_gathers {ds : List TypeDefinition} {r : TypeDefinition}
    (h : combineAll? ds = some r) : r.body.Gathers (ds.map TypeDefinition.body) := by
  refine combineAll?_induct (P := fun ds r => r.body.Gathers (ds.map TypeDefinition.body))
    (fun d => .self d.body) (fun d e u es r hu ih => ?_) h
  obtain ⟨body, hb, rfl⟩ := combine?_eq_some hu
  exact .cons (TypeBody.combine?_gathers hb) ih

end SchemaWeave
