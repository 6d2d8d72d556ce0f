import SchemaWeave.Element.Basic

/-!
# Entry points, operation by operation

The entry points of a schema are what `get` says of each operation. `toList` lists them, and
`map` changes the names behind them, one by one.
-/

namespace SchemaWeave

namespace RootOperations

theorem ext_get {r r' : RootOperations} (h : ∀ op, r.get op = r'.get op) : r = r' := by
  obtain ⟨q, m, s⟩ := r
  obtain ⟨q', m', s'⟩ := r'
  have hq : q = q' := h .query
  have hm : m = m' := h .mutation
  have hs : s = s' := h .subscription
  rw [hq, hm, hs]

theorem mem_toList {r : RootOperations} {op : RootOperation} {n : Name} :
    (op, n) ∈ r.toList ↔ r.get op = some n := by
  constructor
  · intro h
    obtain ⟨op', -, hop⟩ := List.mem_filterMap.mp h
    obtain ⟨n', hn', heq⟩ := Option.map_eq_some_iff.mp hop
    cases heq
    exact hn'
  · intro h
    exact List.mem_filterMap.mpr ⟨op, by cases op <;> decide, by rw [h]; rfl⟩

theorem isCanonical_iff {r : RootOperations} :
    r.isCanonical = true ↔ ∀ op n, r.get op = some n → n = op.canonicalName := by
  unfold isCanonical
  rw [List.all_eq_true]
  constructor
  · intro h op n hn
    exact of_decide_eq_true (h (op, n) (mem_toList.mpr hn))
  · rintro h ⟨op, n⟩ he
    exact decide_eq_true (h op n (mem_toList.mp he))

theorem get_set (r : RootOperations) (op op' : RootOperation) (n : Option Name) :
    (r.set op n).get op' = if op' = op then n else r.get op' := by
  split
  · next h => rw [h, get_set_self]
  · next h => exact get_set_of_ne r n h

@[simp] theorem get_map (r : RootOperations) (f : Name → Name) (op : RootOperation) :
    (r.map f).get op = (r.get op).map f := by
  cases op <;> rfl

theorem get_filter (r : RootOperations) (p : Name → Bool) (op : RootOperation) :
    (r.filter p).get op = (r.get op).filter p := by
  cases op <;> rfl

theorem toList_map (r : RootOperations) (f : Name → Name) :
    (r.map f).toList = r.toList.map fun e => (e.1, f e.2) := by
  unfold toList
  rw [List.map_filterMap]
  congr 1
  funext op
  rw [get_map, Option.map_map, Option.map_map]
  rfl

/-- Only the names that are there decide what a change makes of the entry points. -/
theorem map_congr {r : RootOperations} {f g : Name → Name}
    (h : ∀ op n, r.get op = some n → f n = g n) : r.map f = r.map g := by
  refine ext_get fun op => ?_
  rw [get_map, get_map]
  exact Option.map_congr fun n hn => h op n hn

theorem map_map (r : RootOperations) (f g : Name → Name) : (r.map f).map g = r.map (g ∘ f) := by
  refine ext_get fun op => ?_
  rw [get_map, get_map, get_map, Option.map_map]

theorem map_id (r : RootOperations) : r.map id = r := by
  refine ext_get fun op => ?_
  rw [get_map, Option.map_id]
  rfl

end RootOperations

end SchemaWeave
