import SchemaWeave.Sdl.Rule

/-!
# What grammar rules take

A rule that succeeds takes a row of tokens from the front and leaves the rest. The loop
`repeatWhile` takes such rows one after the other, as many as it gives results: `InRow` says so
without the loop. Conversely the loop takes every row of this kind, as far as the rule for one
round can tell where a row ends.
-/

namespace SchemaWeave.Sdl

/-- Rows of tokens one after the other, each of which means one thing. -/
inductive InRow {α : Type} (P : α → List Lexeme → Prop) : List α → List Lexeme → Prop
  | nil : InRow P [] []
  | cons {a : α} {ls : List Lexeme} {as : List α} {ls' : List Lexeme} :
      P a ls → InRow P as ls' → InRow P (a :: as) (ls ++ ls')

theorem InRow.imp {α : Type} {P Q : α → List Lexeme → Prop} {as : List α} {ls : List Lexeme}
    (h : InRow P as ls) (himp : ∀ a ∈ as, ∀ ls, P a ls → Q a ls) : InRow Q as ls := by
  induction h with
  | nil => exact .nil
  | cons ha _ ih =>
    rw [List.forall_mem_cons] at himp
    exact .cons (himp.1 _ ha) (ih himp.2)

theorem InRow.exists_of_mem {α : Type} {P : α → List Lexeme → Prop} {as : List α}
    {ls : List Lexeme} (h : InRow P as ls) {a : α} (ha : a ∈ as) : ∃ ls, P a ls := by
  induction h with
  | nil => cases ha
  | cons hb _ ih =>
    rcases List.mem_cons.mp ha with rfl | ha
    · exact ⟨_, hb⟩
    · exact ih ha

namespace Rule

variable {α β : Type} {ts rest : List Lexeme}

/-- Whether the next token passes the test. -/
def starts (p : Token → Bool) (ts : List Lexeme) : Bool := ts.head?.any fun l => p l.token

@[simp] theorem starts_cons (p : Token → Bool) (l : Lexeme) (ts : List Lexeme) :
    starts p (l :: ts) = p l.token := rfl

theorem exists_eq_cons_of_starts {p : Token → Bool} (h : starts p ts = true) :
    ∃ l tail, p l.token = true ∧ ts = l :: tail := by
  cases ts with
  | nil => cases h
  | cons l tail => exact ⟨l, tail, h, rfl⟩

/-! ## Single tokens -/

theorem bind_apply (r : Rule α) (f : α → Rule β) (ts : List Lexeme) :
    (r >>= f) ts = (r ts).bind fun p => f p.1 p.2 := rfl

theorem pure_apply (a : α) (ts : List Lexeme) : (pure a : Rule α) ts = some (a, ts) := rfl

theorem bind_eq_some_iff {r : Rule α} {f : α → Rule β} {b : β} :
    (r >>= f) ts = some (b, rest) ↔
      ∃ a mid, r ts = some (a, mid) ∧ f a mid = some (b, rest) := by
  rw [bind_apply, Option.bind_eq_some_iff]
  exact Prod.exists

theorem bind_of_eq_some {r : Rule α} {f : α → Rule β} {a : α} (h : r ts = some (a, rest)) :
    (r >>= f) ts = f a rest := by
  rw [bind_apply, h]
  rfl

theorem bind_of_eq {r r' : Rule α} {f : α → Rule β} {ts' : List Lexeme} (h : r ts = r' ts') :
    (r >>= f) ts = (r' >>= f) ts' := by
  rw [bind_apply, h, bind_apply]

/-- A choice by the next token. -/
theorem nextIs_bind (p : Token → Bool) (f : Bool → Rule α) (ts : List Lexeme) :
    (nextIs p >>= f) ts = f (starts p ts) ts := rfl

theorem nextIs_ite_of_starts {p : Token → Bool} {r r' : Rule α} (h : starts p ts = true) :
    (do if ← nextIs p then r else r') ts = r ts := by
  rw [nextIs_bind, if_pos h]

theorem nextIs_ite_of_not_starts {p : Token → Bool} {r r' : Rule α} (h : starts p ts = false) :
    (do if ← nextIs p then r else r') ts = r' ts := by
  rw [nextIs_bind, h, if_neg Bool.false_ne_true]

theorem take_eq_some_iff {f : Token → Option α} {a : α} :
    take f ts = some (a, rest) ↔ ∃ l, f l.token = some a ∧ ts = l :: rest := by
  cases ts with
  | nil => simp [take]
  | cons l ts =>
    rw [take, Option.map_eq_some_iff]
    simp only [Prod.mk.injEq, List.cons.injEq]
    constructor
    · rintro ⟨_, h, rfl, rfl⟩
      exact ⟨l, h, rfl, rfl⟩
    · rintro ⟨_, h, rfl, rfl⟩
      exact ⟨a, h, rfl, rfl⟩

theorem punctuator_eq_some_iff {p : Punctuator} {u : Unit} :
    punctuator p ts = some (u, rest) ↔ ∃ l, l.token = .punctuator p ∧ ts = l :: rest := by
  simp only [punctuator, take_eq_some_iff, Option.ite_none_right_eq_some, and_true]

theorem punctuator_cons {p : Punctuator} {l : Lexeme} (h : l.token = .punctuator p)
    (ts : List Lexeme) : punctuator p (l :: ts) = some ((), ts) :=
  punctuator_eq_some_iff.mpr ⟨l, h, rfl⟩

theorem name_eq_some_iff {n : Name} :
    name ts = some (n, rest) ↔ ∃ l, l.token = .name n ∧ ts = l :: rest := by
  rw [name, take_eq_some_iff]
  refine exists_congr fun l => and_congr_left fun _ => ?_
  cases l.token <;> simp

theorem optionalIf_bind (p : Token → Bool) (r : Rule α) (f : Option α → Rule β)
    (ts : List Lexeme) : (optionalIf p r >>= f) ts =
      if starts p ts then (r >>= fun a => f (some a)) ts else f none ts := by
  rw [optionalIf, bind_assoc, nextIs_bind]
  split
  · rw [bind_assoc]
    rfl
  · rfl

theorem optionalIf_of_starts {p : Token → Bool} {r : Rule α} {a : α} (h : starts p ts = true)
    (hr : r ts = some (a, rest)) : optionalIf p r ts = some (some a, rest) := by
  rw [optionalIf, nextIs_bind, if_pos h, bind_of_eq_some hr]
  rfl

theorem optionalIf_of_not_starts {p : Token → Bool} {r : Rule α} (h : starts p ts = false) :
    optionalIf p r ts = some (none, ts) := by
  rw [optionalIf, nextIs_bind, h]
  rfl

theorem optionalIf_eq_some_iff {p : Token → Bool} {r : Rule α} {o : Option α} :
    optionalIf p r ts = some (o, rest) ↔
      (starts p ts = true ∧ ∃ a, r ts = some (a, rest) ∧ o = some a) ∨
        (starts p ts = false ∧ rest = ts ∧ o = none) := by
  cases h : starts p ts with
  | false =>
    rw [optionalIf_of_not_starts h]
    simp [eq_comm, and_comm]
  | true =>
    rw [optionalIf, nextIs_bind, if_pos h, bind_eq_some_iff]
    simp only [pure_apply, Option.some.injEq, Prod.mk.injEq, true_and, Bool.true_eq_false,
      false_and, or_false]
    constructor
    · rintro ⟨a, mid, ha, rfl, rfl⟩
      exact ⟨a, ha, rfl⟩
    · rintro ⟨a, ha, rfl⟩
      exact ⟨a, rest, ha, rfl, rfl⟩

/-! ## Loops -/

theorem repeatWhile_sound {p : Token → Bool} {r : Rule α} {P : α → List Lexeme → Prop}
    (hr : ∀ {ts a rest}, r ts = some (a, rest) → ∃ ls, ts = ls ++ rest ∧ P a ls)
    {as : List α} (h : repeatWhile p r ts = some (as, rest)) :
    ∃ ls, ts = ls ++ rest ∧ InRow P as ls := by
  fun_induction repeatWhile p r ts generalizing as with
  | case1 =>
    cases h
    exact ⟨[], rfl, .nil⟩
  | case2 => cases h
  | case3 l tail hp a mid hround hlength ih =>
    obtain ⟨⟨as, rest⟩, hmore, heq⟩ := Option.map_eq_some_iff.mp h
    cases heq
    obtain ⟨ls, hls, ha⟩ := hr hround
    obtain ⟨ls', rfl, has⟩ := ih hmore
    exact ⟨ls ++ ls', by rw [hls, List.append_assoc], .cons ha has⟩
  | case4 => cases h
  | case5 l tail hp =>
    cases h
    exact ⟨[], rfl, .nil⟩

theorem repeatWhile_of_stop {p : Token → Bool} {r : Rule α}
    (h : starts p ts = false) : repeatWhile p r ts = some ([], ts) := by
  rw [repeatWhile.eq_def]
  cases ts with
  | nil => rfl
  | cons l tail =>
    have hp : p l.token = false := h
    simp only [hp, Bool.false_eq_true, if_false]

/-- Where a round needs to see `Q` after its row, every row has to show it as well. -/
theorem repeatWhile_complete {p : Token → Bool} {r : Rule α} {P : α → List Lexeme → Prop}
    {Q : List Lexeme → Prop} {as : List α} {ls : List Lexeme} (hrow : InRow P as ls)
    (hr : ∀ a ∈ as, ∀ {ls rest}, P a ls → Q rest → r (ls ++ rest) = some (a, rest))
    (hhead : ∀ {a ls}, P a ls → ∃ l tail, ls = l :: tail ∧ p l.token = true)
    (hsee : ∀ {a ls rest}, P a ls → Q (ls ++ rest)) (hrest : Q rest)
    (hstop : starts p rest = false) :
    repeatWhile p r (ls ++ rest) = some (as, rest) := by
  induction hrow with
  | nil =>
    exact repeatWhile_of_stop hstop
  | @cons a ls as ls' ha has ih =>
    rw [List.forall_mem_cons] at hr
    -- behind this row stands the next one, or what follows all of them
    have hfollow : Q (ls' ++ rest) := by
      cases has with
      | nil => exact hrest
      | cons hb _ =>
        rw [List.append_assoc]
        exact hsee hb
    have hround := hr.1 ha hfollow
    obtain ⟨l, tail, rfl, hl⟩ := hhead ha
    rw [List.append_assoc]
    rw [List.cons_append] at hround ⊢
    rw [repeatWhile, if_pos hl, hround]
    simp only [ih hr.2, List.length_append, Nat.le_add_left, if_true, Option.map_some]

end Rule

end SchemaWeave.Sdl
