import Mathlib.Data.List.Nodup
import SchemaWeave.Proofs.Distinct
import SchemaWeave.Table

/-!
# Lookups in tables

What each operation on tables does to `get?`, `keys` and `entries`. Later modules use these
statements and leave the definitions closed.

`Table.tabulate` is the table of what a function gives for distinct keys. A result that is
built key by key is described by it.
-/

namespace SchemaWeave

namespace Table

variable {κ α β γ : Type}

/-! ## Entries and keys -/

theorem mem_keys_of_mem {t : Table κ α} {k : κ} {a : α} (h : (k, a) ∈ t.entries) : k ∈ t.keys :=
  List.mem_map.mpr ⟨(k, a), h, rfl⟩

theorem mem_keys {t : Table κ α} {k : κ} : k ∈ t.keys ↔ ∃ a, (k, a) ∈ t.entries := by
  constructor
  · intro h
    obtain ⟨e, he, rfl⟩ := List.mem_map.mp h
    exact ⟨e.2, he⟩
  · rintro ⟨a, h⟩
    exact mem_keys_of_mem h

@[simp] theorem keys_map (t : Table κ α) (f : κ → α → β) : (t.map f).keys = t.keys :=
  map_fst_map_snd f t.entries

theorem mem_entries_map {t : Table κ α} {f : κ → α → β} {k : κ} {b : β} :
    (k, b) ∈ (t.map f).entries ↔ ∃ a, (k, a) ∈ t.entries ∧ f k a = b := by
  constructor
  · intro h
    obtain ⟨e, he, heq⟩ := List.mem_map.mp h
    cases heq
    exact ⟨e.2, he, rfl⟩
  · rintro ⟨a, h, rfl⟩
    exact List.mem_map.mpr ⟨(k, a), h, rfl⟩

theorem mem_entries_filter {t : Table κ α} {p : κ → α → Bool} {k : κ} {a : α} :
    (k, a) ∈ (t.filter p).entries ↔ (k, a) ∈ t.entries ∧ p k a = true := by
  simp [filter]

theorem filter_eq_self {t : Table κ α} {p : κ → α → Bool}
    (h : ∀ k a, (k, a) ∈ t.entries → p k a = true) : t.filter p = t :=
  ext (List.filter_eq_self.mpr fun e he => h e.1 e.2 he)

theorem filter_comm (t : Table κ α) (p q : κ → α → Bool) :
    (t.filter p).filter q = (t.filter q).filter p :=
  ext (List.filter_comm _ _ _)

theorem values_map (t : Table κ α) (f : α → β) :
    (t.map fun _ a => f a).values = t.values.map f := by
  simp [values, map]

theorem mem_values_of_mem {t : Table κ α} {k : κ} {a : α} (h : (k, a) ∈ t.entries) :
    a ∈ t.values :=
  List.mem_map.mpr ⟨(k, a), h, rfl⟩

theorem isEmpty_eq_false_iff {t : Table κ α} : t.isEmpty = false ↔ t.keys ≠ [] := by
  unfold isEmpty keys
  rw [List.isEmpty_eq_false_iff, ne_eq, ne_eq, List.map_eq_nil_iff]

/-! ## Changes of all entries -/

theorem isEmpty_map (t : Table κ α) (f : κ → α → β) : (t.map f).isEmpty = t.isEmpty := by
  show (t.entries.map _).isEmpty = t.entries.isEmpty
  rw [List.isEmpty_map]

theorem map_map (t : Table κ α) (f : κ → α → β) (g : κ → β → γ) :
    (t.map f).map g = t.map fun k a => g k (f k a) :=
  ext (by simp [map, List.map_map, Function.comp_def])

theorem map_congr {t : Table κ α} {f g : κ → α → β}
    (h : ∀ k a, (k, a) ∈ t.entries → f k a = g k a) :
    t.map f = t.map g :=
  ext (List.map_congr_left fun e he => by rw [h e.1 e.2 he])

theorem map_eq_self {t : Table κ α} {f : κ → α → α} (h : ∀ k a, (k, a) ∈ t.entries → f k a = a) :
    t.map f = t := by
  have hid : (t.map f).entries = t.entries.map id :=
    List.map_congr_left fun e he => Prod.ext rfl (h e.1 e.2 he)
  exact ext (hid.trans (List.map_id _))

/-- A change before a filter and one after it can be made at once. -/
theorem map_filter_map {t : Table κ α} {f : κ → α → β} {p : κ → β → Bool} {q : κ → α → Bool}
    {g : κ → β → γ} {h : κ → α → γ} (hp : ∀ k a, (k, a) ∈ t.entries → p k (f k a) = q k a)
    (hg : ∀ k a, (k, a) ∈ t.entries → q k a = true → g k (f k a) = h k a) :
    ((t.map f).filter p).map g = (t.filter q).map h := by
  refine ext ?_
  show ((t.entries.map _).filter _).map _ = (t.entries.filter _).map _
  have hkept : t.entries.filter ((fun e => p e.1 e.2) ∘ fun e => (e.1, f e.1 e.2))
      = t.entries.filter fun e => q e.1 e.2 :=
    List.filter_congr fun e he => hp e.1 e.2 he
  rw [List.filter_map, List.map_map, hkept]
  refine List.map_congr_left fun e he => ?_
  obtain ⟨he, hq⟩ := List.mem_filter.mp he
  exact Prod.ext rfl (hg e.1 e.2 he hq)

/-- A change that does not show in what a filter keeps. -/
theorem filter_map_eq {t : Table κ α} {f : κ → α → α} {p q : κ → α → Bool}
    (hp : ∀ k a, (k, a) ∈ t.entries → p k (f k a) = q k a)
    (hf : ∀ k a, (k, a) ∈ t.entries → q k a = true → f k a = a) :
    (t.map f).filter p = t.filter q := by
  have hkept := map_filter_map (g := fun _ a => a) (h := fun _ a => a) hp hf
  rwa [map_eq_self fun _ _ _ => rfl, map_eq_self fun _ _ _ => rfl] at hkept

section Lookup

variable [DecidableEq κ]

/-! ## Lookup -/

theorem get?_eq_some_iff {t : Table κ α} {k : κ} {a : α} :
    t.get? k = some a ↔ (k, a) ∈ t.entries := by
  obtain ⟨l, hl⟩ := t
  show l.lookup k = some a ↔ (k, a) ∈ l
  induction l with
  | nil => simp
  | cons e rest ih =>
    obtain ⟨k', a'⟩ := e
    have hnd := List.nodup_cons.mp hl
    by_cases hk : k = k'
    · subst hk
      have hna : (k, a) ∉ rest := fun h => hnd.1 (List.mem_map.mpr ⟨(k, a), h, rfl⟩)
      simp [hna, eq_comm]
    · have hb : (k == k') = false := by simpa using hk
      rw [List.lookup_cons, hb]
      simp only [ih hnd.2, List.mem_cons, Prod.mk.injEq, hk, false_and, false_or]

theorem get?_eq_none_iff {t : Table κ α} {k : κ} : t.get? k = none ↔ k ∉ t.keys := by
  rw [mem_keys, Option.eq_none_iff_forall_ne_some]
  simp only [ne_eq, get?_eq_some_iff, not_exists]

theorem exists_get?_of_mem_keys {t : Table κ α} {k : κ} (h : k ∈ t.keys) :
    ∃ a, t.get? k = some a := by
  obtain ⟨a, ha⟩ := mem_keys.mp h
  exact ⟨a, get?_eq_some_iff.mpr ha⟩

theorem mem_keys_of_get? {t : Table κ α} {k : κ} {a : α} (h : t.get? k = some a) : k ∈ t.keys :=
  mem_keys_of_mem (get?_eq_some_iff.mp h)

theorem contains_iff {t : Table κ α} {k : κ} : t.contains k = true ↔ k ∈ t.keys := by
  unfold contains
  rw [Option.isSome_iff_ne_none, ne_eq, get?_eq_none_iff, Classical.not_not]

theorem contains_eq_false_iff {t : Table κ α} {k : κ} : t.contains k = false ↔ k ∉ t.keys := by
  rw [← Bool.not_eq_true, contains_iff]

theorem mem_values_iff {t : Table κ α} {a : α} : a ∈ t.values ↔ ∃ k, t.get? k = some a := by
  simp only [get?_eq_some_iff, values, List.mem_map]
  constructor
  · rintro ⟨e, he, rfl⟩
    exact ⟨e.1, he⟩
  · rintro ⟨k, h⟩
    exact ⟨(k, a), h, rfl⟩

theorem mem_values_of_get? {t : Table κ α} {k : κ} {a : α} (h : t.get? k = some a) :
    a ∈ t.values :=
  mem_values_iff.mpr ⟨k, h⟩

/-! ## Lookup after a change -/

theorem get?_map (t : Table κ α) (f : κ → α → β) (k : κ) :
    (t.map f).get? k = (t.get? k).map (f k) := by
  ext b
  rw [get?_eq_some_iff, mem_entries_map, Option.map_eq_some_iff]
  simp only [get?_eq_some_iff]

theorem get?_filter (t : Table κ α) (p : κ → α → Bool) (k : κ) :
    (t.filter p).get? k = (t.get? k).filter (p k) := by
  ext a
  rw [get?_eq_some_iff, mem_entries_filter, Option.filter_eq_some_iff, get?_eq_some_iff]

theorem get?_erase (t : Table κ α) (k k' : κ) :
    (t.erase k).get? k' = if k' = k then none else t.get? k' := by
  unfold erase
  rw [get?_filter]
  by_cases h : k' = k
  · simp [h]
  · cases t.get? k' <;> simp [h]

theorem get?_insert (t : Table κ α) (k k' : κ) (a : α) :
    (t.insert k a).get? k' = if k' = k then some a else t.get? k' := by
  obtain ⟨l, hl⟩ := t
  show (insertEntry k a l).lookup k' = if k' = k then some a else l.lookup k'
  clear hl
  induction l with
  | nil => by_cases h : k' = k <;> simp [insertEntry, h]
  | cons e rest ih =>
    obtain ⟨k₁, a₁⟩ := e
    by_cases h₁ : k₁ = k
    · subst h₁
      by_cases h : k' = k₁
      · simp [insertEntry, h]
      · have hb : (k' == k₁) = false := by simpa using h
        simp [insertEntry, h, hb, List.lookup_cons]
    · rw [insertEntry, if_neg h₁, List.lookup_cons, List.lookup_cons, ih]
      by_cases h : k' = k₁
      · subst h
        simp [h₁]
      · have hb : (k' == k₁) = false := by simpa using h
        rw [hb]

theorem keys_insert (t : Table κ α) (k : κ) (a : α) :
    (t.insert k a).keys = if k ∈ t.keys then t.keys else t.keys ++ [k] :=
  map_fst_insertEntry k a t.entries

theorem keys_insert_of_mem {t : Table κ α} {k : κ} (a : α) (h : k ∈ t.keys) :
    (t.insert k a).keys = t.keys := by
  rw [keys_insert, if_pos h]

theorem keys_insert_of_not_mem {t : Table κ α} {k : κ} (a : α) (h : k ∉ t.keys) :
    (t.insert k a).keys = t.keys ++ [k] := by
  rw [keys_insert, if_neg h]

theorem entries_insert_of_not_mem {t : Table κ α} {k : κ} (a : α) (h : k ∉ t.keys) :
    (t.insert k a).entries = t.entries ++ [(k, a)] := by
  obtain ⟨l, hl⟩ := t
  replace h : k ∉ l.map Prod.fst := h
  show insertEntry k a l = l ++ [(k, a)]
  clear hl
  induction l with
  | nil => rfl
  | cons e rest ih =>
    have hne : e.1 ≠ k := fun he => h (by simp [he])
    rw [insertEntry, if_neg hne, ih fun hm => h (by simp [hm])]
    rfl

theorem mem_keys_insert {t : Table κ α} {k k' : κ} {a : α} :
    k' ∈ (t.insert k a).keys ↔ k' ∈ t.keys ∨ k' = k := by
  rw [keys_insert]
  split
  · next h => exact ⟨Or.inl, fun h' => h'.elim id (fun he => he ▸ h)⟩
  · simp

theorem insertIfNew_of_mem {t : Table κ α} {k : κ} (a : α) (h : k ∈ t.keys) :
    t.insertIfNew k a = t := by
  rw [insertIfNew, if_pos (contains_iff.mpr h)]

theorem insertIfNew_of_not_mem {t : Table κ α} {k : κ} (a : α) (h : k ∉ t.keys) :
    t.insertIfNew k a = t.insert k a := by
  rw [insertIfNew, if_neg (by rw [contains_iff]; exact h)]

/-! ## Writing one entry after another -/

/-- Where each step writes under its own key, the keys are those that were there and the keys
of the steps. A table that has the first of them in order ends with all of them in order. -/
theorem keys_foldl_of_prefix {γ : Type} {step : Table κ α → γ → Table κ α} {g : γ → κ}
    (hstep : ∀ t c, (step t c).keys = if g c ∈ t.keys then t.keys else t.keys ++ [g c])
    {t : Table κ α} {l : List γ} (hl : (l.map g).Nodup) (ht : t.keys <+: l.map g) :
    (l.foldl step t).keys = l.map g := by
  suffices h : ∀ (l : List γ) (t : Table κ α),
      (l.foldl step t).keys = ((⟨t.keys, t.nodup⟩ : Distinct κ).append (l.map g)).toList by
    rw [h l t]
    -- the keys that are there come first and change nothing; the rest is appended
    obtain ⟨rest, hrest⟩ := ht
    rw [← hrest, ← Distinct.append_append, Distinct.append_of_subset fun _ ha => ha]
    rw [← hrest] at hl
    exact Distinct.toList_append_of_nodup (List.nodup_append.mp hl).2.1
      fun a ha hk => (List.nodup_append.mp hl).2.2 a hk a ha rfl
  intro l
  induction l with
  | nil => exact fun _ => rfl
  | cons c l ih =>
    intro t
    rw [List.foldl_cons, ih, List.map_cons, Distinct.append_cons]
    congr 2
    refine Distinct.ext ?_
    show (step t c).keys = (Distinct.insert ⟨t.keys, t.nodup⟩ (g c)).toList
    rw [hstep]
    by_cases hc : g c ∈ t.keys
    · rw [if_pos hc, Distinct.insert_of_mem hc]
    · rw [if_neg hc, Distinct.toList_insert_of_not_mem hc]

/-- A table is filled by inserting its own entries: what holds at the end, and before each new
entry if it holds after it, holds of the empty table and all entries to come. -/
theorem fill_induct {t : Table κ α} {P : Table κ α → List (κ × α) → Prop} (h : P t [])
    (hstep : ∀ t' k a es, (k, a) ∈ t.entries → k ∉ t'.keys → P (t'.insert k a) es →
      P t' ((k, a) :: es)) : P empty t.entries := by
  suffices hs : ∀ (es : List (κ × α)) (t' : Table κ α), t'.entries ++ es = t.entries → P t' es from
    hs t.entries empty rfl
  intro es
  induction es with
  | nil =>
    intro t' ht
    rwa [ext ((List.append_nil _).symm.trans ht)]
  | cons e es ih =>
    intro t' ht
    have hnew : e.1 ∉ t'.keys := by
      have hnodup := t.nodup
      rw [← ht, List.map_append, List.nodup_append] at hnodup
      exact fun hk => hnodup.2.2 e.1 hk e.1 (by simp) rfl
    have hmem : e ∈ t.entries := ht ▸ List.mem_append_right _ List.mem_cons_self
    refine hstep t' e.1 e.2 es hmem hnew (ih _ ?_)
    rw [entries_insert_of_not_mem _ hnew, List.append_assoc]
    exact ht

theorem keys_insertIfNew (t : Table κ α) (k : κ) (a : α) :
    (t.insertIfNew k a).keys = if k ∈ t.keys then t.keys else t.keys ++ [k] := by
  by_cases h : k ∈ t.keys
  · rw [insertIfNew_of_mem a h, if_pos h]
  · rw [insertIfNew_of_not_mem a h, keys_insert]

theorem get?_insertIfNew (t : Table κ α) (k k' : κ) (a : α) :
    (t.insertIfNew k a).get? k' = (t.get? k').or (if k' = k then some a else none) := by
  by_cases h : k ∈ t.keys
  · rw [insertIfNew_of_mem a h]
    by_cases hk : k' = k
    · obtain ⟨b, hb⟩ := exists_get?_of_mem_keys h
      rw [hk, hb]
      rfl
    · rw [if_neg hk, Option.or_none]
  · rw [insertIfNew_of_not_mem a h, get?_insert]
    by_cases hk : k' = k
    · rw [if_pos hk, if_pos hk, hk, get?_eq_none_iff.mpr h]
      rfl
    · rw [if_neg hk, if_neg hk, Option.or_none]

theorem get?_foldl_insertIfNew (ks : List κ) (a : α) (t : Table κ α) (k : κ) :
    (ks.foldl (fun t k => t.insertIfNew k a) t).get? k
      = (t.get? k).or (if k ∈ ks then some a else none) := by
  induction ks generalizing t with
  | nil => simp
  | cons k' ks ih =>
    rw [List.foldl_cons, ih, get?_insertIfNew, Option.or_assoc]
    congr 1
    by_cases hk : k = k'
    · simp [hk]
    · simp [hk]

/-! ## Moving an entry -/

theorem mem_keys_ofList {l : List (κ × α)} {k : κ} :
    k ∈ (ofList l).keys ↔ k ∈ l.map Prod.fst := by
  suffices h : ∀ t : Table κ α, k ∈ (l.foldl (fun t e => t.insert e.1 e.2) t).keys ↔
      k ∈ t.keys ∨ k ∈ l.map Prod.fst by
    refine (h empty).trans ?_
    simp
  induction l with
  | nil => simp
  | cons e l ih =>
    intro t
    rw [List.foldl_cons, ih, mem_keys_insert, List.map_cons, List.mem_cons, or_assoc]

/-- A list of pairs that repeats no key is kept as it is. -/
theorem entries_ofList_of_nodup {l : List (κ × α)} (h : (l.map Prod.fst).Nodup) :
    (ofList l).entries = l := by
  suffices hl : ∀ (l : List (κ × α)) (t : Table κ α), ((t.entries ++ l).map Prod.fst).Nodup →
      (l.foldl (fun t e => t.insert e.1 e.2) t).entries = t.entries ++ l from
    hl l empty h
  intro l
  induction l with
  | nil => simp
  | cons e l ih =>
    intro t ht
    have hnew : e.1 ∉ t.keys := by
      rw [List.map_append, List.nodup_append] at ht
      exact fun hk => ht.2.2 e.1 hk e.1 (by simp) rfl
    have he : (t.insert e.1 e.2).entries ++ l = t.entries ++ e :: l := by
      rw [entries_insert_of_not_mem e.2 hnew, List.append_assoc]
      rfl
    rw [List.foldl_cons, ih, he]
    rw [he]
    exact ht

/-- An entry that is moved to a key which no other entry has stays in its place. -/
theorem entries_rekey {t : Table κ α} {k k' : κ} {f : α → α} (h : k' ∈ t.keys → k' = k) :
    (t.rekey k k' f).entries = t.entries.map fun e => if e.1 = k then (k', f e.2) else e := by
  refine entries_ofList_of_nodup ?_
  have hkeys : (t.entries.map fun e => if e.1 = k then (k', f e.2) else e).map Prod.fst
      = t.keys.map fun n => if n = k then k' else n := by
    rw [List.map_map, keys, List.map_map]
    refine List.map_congr_left fun e _ => ?_
    simp only [Function.comp_apply]
    split <;> rfl
  rw [hkeys]
  refine List.Nodup.map_on (fun m hm n hn heq => ?_) t.keys_nodup
  -- the new key is the image of the old one alone
  split at heq <;> split at heq <;> grind

/-- An entry that is moved to a new key can be moved back. -/
theorem rekey_rekey {t : Table κ α} {k k' : κ} {f g : α → α} (hnew : k' ∉ t.keys)
    (hgf : ∀ a, (k, a) ∈ t.entries → g (f a) = a) : (t.rekey k k' f).rekey k' k g = t := by
  have hmoved : (t.rekey k k' f).entries
      = t.entries.map fun e => if e.1 = k then (k', f e.2) else e :=
    entries_rekey fun hm => absurd hm hnew
  have hfree : k ∈ (t.rekey k k' f).keys → k = k' := by
    rw [keys, hmoved, List.map_map]
    intro hk
    obtain ⟨e, -, heq⟩ := List.mem_map.mp hk
    simp only [Function.comp_apply] at heq
    split at heq
    · exact heq.symm
    · next he => exact absurd heq he
  refine ext ?_
  rw [entries_rekey hfree, hmoved, List.map_map]
  refine (List.map_congr_left fun e he => ?_).trans (List.map_id _)
  simp only [Function.comp_apply, id_eq]
  by_cases hek : e.1 = k
  · rw [if_pos hek, if_pos rfl, hgf e.2 (hek ▸ he)]
    exact Prod.ext hek.symm rfl
  · have hne : e.1 ≠ k' := fun h => hnew (h ▸ mem_keys_of_mem he)
    rw [if_neg hek, if_neg hne]

end Lookup

/-! ## Tables of functions -/

theorem map_fst_filterMap (ks : List κ) (f : κ → Option α) :
    (ks.filterMap fun k => (f k).map (k, ·)).map Prod.fst = ks.filter fun k => (f k).isSome := by
  rw [List.map_filterMap, ← List.filterMap_eq_filter]
  refine List.filterMap_congr fun k _ => ?_
  cases hk : f k <;> simp [Option.guard, hk]

/-- The entries that a function gives for some of the keys, in the order of the keys. -/
def tabulate (ks : Distinct κ) (f : κ → Option α) : Table κ α where
  entries := ks.toList.filterMap fun k => (f k).map (k, ·)
  nodup := by
    rw [map_fst_filterMap]
    exact ks.nodup.filter _

theorem keys_tabulate (ks : Distinct κ) (f : κ → Option α) :
    (tabulate ks f).keys = ks.toList.filter fun k => (f k).isSome :=
  map_fst_filterMap ks.toList f

theorem mem_entries_tabulate {ks : Distinct κ} {f : κ → Option α} {k : κ} {a : α} :
    (k, a) ∈ (tabulate ks f).entries ↔ k ∈ ks.toList ∧ f k = some a := by
  show (k, a) ∈ ks.toList.filterMap (fun k => (f k).map (k, ·)) ↔ _
  rw [List.mem_filterMap]
  constructor
  · rintro ⟨k', hk', hf⟩
    obtain ⟨a', ha', heq⟩ := Option.map_eq_some_iff.mp hf
    cases heq
    exact ⟨hk', ha'⟩
  · rintro ⟨hk, hf⟩
    exact ⟨k, hk, by rw [hf]; rfl⟩

theorem get?_tabulate [DecidableEq κ] (ks : Distinct κ) (f : κ → Option α) (k : κ) :
    (tabulate ks f).get? k = if k ∈ ks.toList then f k else none := by
  ext a
  rw [get?_eq_some_iff, mem_entries_tabulate]
  by_cases h : k ∈ ks.toList <;> simp [h]

/-- A table is what its own lookups give for its keys. -/
theorem tabulate_get? [DecidableEq κ] (t : Table κ α) : tabulate ⟨t.keys, t.nodup⟩ t.get? = t := by
  refine ext ?_
  show (t.entries.map Prod.fst).filterMap (fun k => (t.get? k).map (k, ·)) = t.entries
  rw [List.filterMap_map]
  conv_rhs => rw [← List.filterMap_some (l := t.entries)]
  exact List.filterMap_congr fun e he => by
    show (t.get? e.1).map (e.1, ·) = some e
    rw [get?_eq_some_iff.mpr he]
    rfl

theorem tabulate_congr {ks : Distinct κ} {f g : κ → Option α} (h : ∀ k ∈ ks.toList, f k = g k) :
    tabulate ks f = tabulate ks g :=
  ext (List.filterMap_congr fun k hk => by rw [h k hk])

/-- Tables with the same keys in the same order are told apart by their lookups. -/
theorem ext_get? [DecidableEq κ] {t u : Table κ α} (hkeys : t.keys = u.keys)
    (hget : ∀ k ∈ t.keys, t.get? k = u.get? k) : t = u := by
  have hnames : (⟨t.keys, t.nodup⟩ : Distinct κ) = ⟨u.keys, u.nodup⟩ := Distinct.ext hkeys
  rw [← tabulate_get? t, ← tabulate_get? u, tabulate_congr hget, hnames]

/-- An entry that is there already changes nothing. -/
theorem insert_eq_self [DecidableEq κ] {t : Table κ α} {k : κ} {a : α} (h : t.get? k = some a) :
    t.insert k a = t := by
  refine ext_get? (keys_insert_of_mem a (mem_keys_of_get? h)) fun k' _ => ?_
  rw [get?_insert]
  split
  · next hk => rw [hk, h]
  · rfl

/-- A second entry under one key takes the place of the first. -/
theorem insert_insert [DecidableEq κ] (t : Table κ α) (k : κ) (a b : α) :
    (t.insert k a).insert k b = t.insert k b := by
  have hmem : k ∈ (t.insert k a).keys := mem_keys_insert.mpr (.inr rfl)
  refine ext_get? ?_ fun k' _ => ?_
  · rw [keys_insert_of_mem b hmem, keys_insert, keys_insert]
  · simp only [get?_insert]
    split <;> rfl

/-- A new entry comes last, whether an older one is changed before it or after it. -/
theorem insert_insert_comm [DecidableEq κ] {t : Table κ α} {k k' : κ} {a b : α} (hk : k ∈ t.keys)
    (hk' : k' ∉ t.keys) : (t.insert k a).insert k' b = (t.insert k' b).insert k a := by
  have hne : k ≠ k' := fun h => hk' (h ▸ hk)
  refine ext_get? ?_ fun n _ => ?_
  · rw [keys_insert_of_not_mem b (by rwa [keys_insert_of_mem a hk]), keys_insert_of_mem a hk,
      keys_insert_of_mem a (mem_keys_insert.mpr (.inl hk)), keys_insert_of_not_mem b hk']
  · simp only [get?_insert]
    by_cases hn : n = k
    · subst hn
      rw [if_neg hne, if_pos rfl, if_pos rfl]
    · rw [if_neg hn, if_neg hn]

/-- A new key with an entry comes last. -/
theorem insert_tabulate [DecidableEq κ] {ks : Distinct κ} {f : κ → Option α} {k : κ} {a : α}
    (hk : k ∉ ks.toList) (ha : f k = some a) :
    (tabulate ks f).insert k a = tabulate (ks.insert k) f := by
  have hnew : k ∉ (tabulate ks f).keys := by
    rw [keys_tabulate]
    exact fun h => hk (List.mem_of_mem_filter h)
  refine ext ?_
  rw [entries_insert_of_not_mem a hnew]
  show _ = (ks.insert k).toList.filterMap fun k => (f k).map (k, ·)
  rw [Distinct.toList_insert_of_not_mem hk, List.filterMap_append]
  simp [tabulate, ha]

/-- A key without an entry changes nothing. -/
theorem tabulate_insert_of_none [DecidableEq κ] {ks : Distinct κ} {f : κ → Option α} {k : κ}
    (hf : f k = none) : tabulate (ks.insert k) f = tabulate ks f := by
  by_cases hk : k ∈ ks.toList
  · rw [Distinct.insert_of_mem hk]
  · refine ext ?_
    show (ks.insert k).toList.filterMap (fun k => (f k).map (k, ·)) = _
    rw [Distinct.toList_insert_of_not_mem hk, List.filterMap_append]
    simp [tabulate, hf]

/-- The table of a list of pairs with distinct keys has all of them. -/
theorem ofList_map_eq_tabulate [DecidableEq κ] (ks : Distinct κ) (f : κ → α) :
    ofList (ks.toList.map fun k => (k, f k)) = tabulate ks fun k => some (f k) := by
  unfold ofList
  rw [List.foldl_map]
  exact Distinct.foldl_toList (g := fun ks => tabulate ks fun k => some (f k))
    (fun _ _ hk => insert_tabulate (f := fun k => some (f k)) hk rfl) ks

/-- Where every key has an entry, the keys of the table are all keys. -/
theorem keys_tabulate_of_isSome {ks : Distinct κ} {f : κ → Option α}
    (h : ∀ k ∈ ks.toList, (f k).isSome) : (tabulate ks f).keys = ks.toList := by
  rw [keys_tabulate, List.filter_eq_self]
  exact h

end Table

end SchemaWeave
