import Mathlib.Data.List.Nodup
import SchemaWeave.Distinct

/-!
# Elements of lists without repetition

What each operation does to the elements and to their order. The first mention of an element
decides its place, so appending what is already listed changes nothing, and a list may be
thinned out before or after it is appended.
-/

namespace SchemaWeave

namespace Distinct

variable {α : Type} [DecidableEq α]

/-! ## One element -/

theorem insert_of_mem {s : Distinct α} {a : α} (h : a ∈ s.toList) : s.insert a = s := by
  rw [insert, dif_pos h]

theorem toList_insert_of_not_mem {s : Distinct α} {a : α} (h : a ∉ s.toList) :
    (s.insert a).toList = s.toList ++ [a] := by
  rw [insert, dif_neg h]

@[simp] theorem mem_insert {s : Distinct α} {a b : α} :
    b ∈ (s.insert a).toList ↔ b ∈ s.toList ∨ b = a := by
  by_cases h : a ∈ s.toList
  · rw [insert_of_mem h]
    exact ⟨Or.inl, fun h' => h'.elim id (fun he => he ▸ h)⟩
  · rw [toList_insert_of_not_mem h]
    simp

/-! ## Many elements -/

@[simp] theorem append_nil (s : Distinct α) : s.append [] = s := rfl

@[simp] theorem append_cons (s : Distinct α) (a : α) (l : List α) :
    s.append (a :: l) = (s.insert a).append l := rfl

theorem append_append (s : Distinct α) (l m : List α) :
    (s.append l).append m = s.append (l ++ m) := by
  simp only [append, List.foldl_append]

@[simp] theorem mem_append {s : Distinct α} {l : List α} {b : α} :
    b ∈ (s.append l).toList ↔ b ∈ s.toList ∨ b ∈ l := by
  induction l generalizing s with
  | nil => simp
  | cons a l ih =>
    rw [append_cons, ih, mem_insert, List.mem_cons, or_assoc]

theorem append_of_subset {s : Distinct α} {l : List α} (h : ∀ a ∈ l, a ∈ s.toList) :
    s.append l = s := by
  induction l with
  | nil => rfl
  | cons a l ih =>
    rw [append_cons, insert_of_mem (h a (by simp)), ih fun b hb => h b (by simp [hb])]

/-- Appending a list is appending its first occurrences. -/
theorem append_toList_append (s t : Distinct α) (l : List α) :
    s.append (t.append l).toList = (s.append t.toList).append l := by
  induction l generalizing t with
  | nil => rfl
  | cons a l ih =>
    rw [append_cons, append_cons, ih]
    -- an element of `t` is in `s.append t.toList` as well and adds nothing to either
    by_cases h : a ∈ t.toList
    · rw [insert_of_mem h, insert_of_mem (mem_append.mpr (Or.inr h))]
    · rw [toList_insert_of_not_mem h, ← append_append]
      rfl

/-! ## Lists -/

@[simp] theorem mem_ofList {l : List α} {b : α} : b ∈ (ofList l).toList ↔ b ∈ l := by
  rw [ofList, mem_append]
  simp

theorem ofList_append (l m : List α) : ofList (l ++ m) = (ofList l).append m :=
  (append_append empty l m).symm

theorem append_toList_ofList (s : Distinct α) (l : List α) :
    s.append (ofList l).toList = s.append l := by
  rw [ofList, append_toList_append]
  rfl

/-- Thinning out the front of a list changes nothing in its first occurrences. -/
theorem ofList_toList_append (l m : List α) :
    ofList ((ofList l).toList ++ m) = ofList (l ++ m) := by
  rw [ofList_append, ofList_append, ofList, append_toList_ofList, ofList]

theorem toList_append_of_nodup {s : Distinct α} {l : List α} (hl : l.Nodup)
    (hd : ∀ a ∈ l, a ∉ s.toList) : (s.append l).toList = s.toList ++ l := by
  induction l generalizing s with
  | nil => simp
  | cons a l ih =>
    have ha := toList_insert_of_not_mem (hd a (by simp))
    have hnd := List.nodup_cons.mp hl
    rw [append_cons, ih hnd.2, ha, List.append_assoc]
    · rfl
    · intro b hb
      rw [ha, List.mem_append, List.mem_singleton]
      rintro (hs | rfl)
      · exact hd b (by simp [hb]) hs
      · exact hnd.1 hb

/-- A list that repeats nothing is kept as it is. -/
theorem toList_ofList_of_nodup {l : List α} (h : l.Nodup) : (ofList l).toList = l := by
  rw [ofList, toList_append_of_nodup h (by simp)]
  rfl

theorem ofList_toList (s : Distinct α) : ofList s.toList = s :=
  ext (toList_ofList_of_nodup s.nodup)

omit [DecidableEq α] in
@[simp] theorem mem_map {β : Type} [DecidableEq β] {s : Distinct α} {f : α → β} {b : β} :
    b ∈ (s.map f).toList ↔ ∃ a ∈ s.toList, f a = b := by
  rw [map, mem_ofList, List.mem_map]

omit [DecidableEq α] in
/-- Images that are all different keep the places of the elements. -/
theorem toList_map {β : Type} [DecidableEq β] {s : Distinct α} {f : α → β}
    (h : ∀ a ∈ s.toList, ∀ b ∈ s.toList, f a = f b → a = b) :
    (s.map f).toList = s.toList.map f :=
  toList_ofList_of_nodup (s.nodup.map_on h)

/-- A list without repetition is filled by inserting its own elements: what holds at the end, and
before each new element if it holds after it, holds of the empty list and all elements to come. -/
theorem fill_induct {s : Distinct α} {P : Distinct α → List α → Prop} (h : P s [])
    (hstep : ∀ s' a as, a ∉ s'.toList → P (s'.insert a) as → P s' (a :: as)) :
    P empty s.toList := by
  suffices hs : ∀ (as : List α) (s' : Distinct α), s'.toList ++ as = s.toList → P s' as from
    hs s.toList empty rfl
  intro as
  induction as with
  | nil =>
    intro s' hs'
    rwa [ext ((List.append_nil _).symm.trans hs')]
  | cons a as ih =>
    intro s' hs'
    have hnew : a ∉ s'.toList := by
      have hnodup := s.nodup
      rw [← hs', List.nodup_append] at hnodup
      exact fun ha => hnodup.2.2 a ha a (by simp) rfl
    refine hstep s' a as hnew (ih _ ?_)
    rw [toList_insert_of_not_mem hnew, List.append_assoc]
    exact hs'

/-- A walk over the elements whose state depends on the elements seen so far ends in the state
for all of them. -/
theorem foldl_toList {β : Type} {step : β → α → β} {g : Distinct α → β}
    (hstep : ∀ s a, a ∉ s.toList → step (g s) a = g (s.insert a)) (t : Distinct α) :
    t.toList.foldl step (g empty) = g t := by
  refine fill_induct (s := t) (P := fun s l => l.foldl step (g s) = g t) rfl ?_
  intro s a l ha ih
  rwa [List.foldl_cons, hstep s a ha]

theorem ofList_eq_empty_iff {l : List α} : ofList l = empty ↔ l = [] := by
  constructor
  · intro h
    refine List.eq_nil_iff_forall_not_mem.mpr fun a ha => ?_
    have hm : a ∈ (ofList l).toList := mem_ofList.mpr ha
    rw [h] at hm
    simp at hm
  · rintro rfl
    rfl

end Distinct

end SchemaWeave
