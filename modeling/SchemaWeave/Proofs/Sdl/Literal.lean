import SchemaWeave.Sdl.Parser
import SchemaWeave.Proofs.Sdl.Rules

/-!
# Constant values as they are written

`Literal` is the grammar of constant values, token by token. The lenient grammar also has
object fields without a value, which mean nothing. The rule for values reads exactly the lenient
literals that are not nested too deeply.
-/

namespace SchemaWeave

/-! ## Nesting -/

namespace Value

mutual

/-- How many lists and objects stand around the innermost value. -/
def depth : Value → Nat
  | list items => itemsDepth items
  | object fields => fieldsDepth fields
  | _ => 0

def itemsDepth : List Value → Nat
  | [] => 0
  | v :: vs => max (depth v + 1) (itemsDepth vs)

def fieldsDepth : List (Name × Value) → Nat
  | [] => 0
  | (_, v) :: fs => max (depth v + 1) (fieldsDepth fs)

end

theorem depth_list_le_iff {vs : List Value} {n : Nat} :
    (list vs).depth ≤ n ↔ ∀ v ∈ vs, v.depth < n := by
  rw [depth]
  induction vs with
  | nil => simp [itemsDepth]
  | cons v vs ih => rw [itemsDepth, Nat.max_le, ih, List.forall_mem_cons, Nat.succ_le_iff]

theorem depth_object_le_iff {fs : List (Name × Value)} {n : Nat} :
    (object fs).depth ≤ n ↔ ∀ f ∈ fs, f.2.depth < n := by
  rw [depth]
  induction fs with
  | nil => simp [fieldsDepth]
  | cons f fs ih => rw [fieldsDepth, Nat.max_le, ih, List.forall_mem_cons, Nat.succ_le_iff]

end Value

namespace Sdl

open Grammar Sdl.Rule

/-! ## The grammar -/

/-- A field of an object, with or without a value. -/
inductive FieldOf (lenient : Bool) (P : Value → List Lexeme → Prop) :
    Option (Name × Value) → List Lexeme → Prop
  | given {n : Name} {v : Value} {l colon : Lexeme} {ls : List Lexeme} :
      l.token = .name n → colon.token = .punctuator .colon → P v ls →
      FieldOf lenient P (some (n, v)) (l :: colon :: ls)
  | bare {n : Name} {l : Lexeme} :
      lenient = true → l.token = .name n → FieldOf lenient P none [l]

/-- The tokens of a constant value. -/
inductive Literal (lenient : Bool) : Value → List Lexeme → Prop
  | scalar {v : Value} {l : Lexeme} :
      scalarOfToken l.token = some v → Literal lenient v [l]
  | list {vs : List Value} {l r : Lexeme} {ls : List Lexeme} :
      l.token = .punctuator .openBracket → InRow (Literal lenient) vs ls →
      r.token = .punctuator .closeBracket → Literal lenient (.list vs) (l :: (ls ++ [r]))
  | object {fs : List (Option (Name × Value))} {l r : Lexeme} {ls : List Lexeme} :
      l.token = .punctuator .openBrace → InRow (FieldOf lenient (Literal lenient)) fs ls →
      r.token = .punctuator .closeBrace →
      Literal lenient (.object (fs.filterMap id)) (l :: (ls ++ [r]))

section

variable {lenient lenient' : Bool} {v : Value} {ls ts rest : List Lexeme}

theorem scalarOfToken_punctuator {t : Token} (h : scalarOfToken t = some v) (p : Punctuator) :
    t ≠ .punctuator p := by
  rintro rfl
  cases h

theorem depth_of_scalarOfToken {t : Token} (h : scalarOfToken t = some v) : v.depth = 0 := by
  cases t with
  | punctuator => cases h
  | name n =>
    obtain rfl := Option.some.inj h
    unfold valueOfName
    repeat' split
    all_goals rfl
  | int | float | string =>
    obtain rfl := Option.some.inj h
    rfl

/-- A value does not begin with what may end a list. -/
theorem Literal.exists_eq_cons (h : Literal lenient v ls) :
    ∃ l tail, ls = l :: tail ∧ (!isPunctuator .closeBracket l.token) = true := by
  cases h with
  | scalar h => exact ⟨_, [], rfl, by simpa [isPunctuator] using scalarOfToken_punctuator h _⟩
  | list h => exact ⟨_, _, rfl, by simp [isPunctuator, h]⟩
  | object h => exact ⟨_, _, rfl, by simp [isPunctuator, h]⟩

/-! ## Fields -/

section Fields

variable {item : Rule Value} {P : Value → List Lexeme → Prop} {f : Option (Name × Value)}

theorem FieldOf.exists_eq_cons (h : FieldOf lenient P f ls) :
    ∃ l tail n, ls = l :: tail ∧ l.token = .name n := by
  cases h with
  | given h => exact ⟨_, _, _, rfl, h⟩
  | bare _ h => exact ⟨_, _, _, rfl, h⟩

theorem FieldOf.imp {Q : Value → List Lexeme → Prop} (h : FieldOf lenient P f ls)
    (hlenient : lenient = true → lenient' = true)
    (himp : ∀ n v, f = some (n, v) → ∀ ls, P v ls → Q v ls) : FieldOf lenient' Q f ls := by
  cases h with
  | given hl hcolon hP => exact .given hl hcolon (himp _ _ rfl _ hP)
  | bare h hl => exact .bare (hlenient h) hl

theorem named_sound
    (hitem : ∀ {ts v rest}, item ts = some (v, rest) → ∃ ls, ts = ls ++ rest ∧ P v ls)
    (h : named item ts = some (f, rest)) : ∃ ls, ts = ls ++ rest ∧ FieldOf true P f ls := by
  obtain ⟨n, mid, hname, hafter⟩ := bind_eq_some_iff.mp h
  obtain ⟨l, hl, rfl⟩ := name_eq_some_iff.mp hname
  obtain ⟨o, mid', hvalue, hend⟩ := bind_eq_some_iff.mp hafter
  rcases optionalIf_eq_some_iff.mp hvalue with ⟨-, v, hv, rfl⟩ | ⟨-, rfl, rfl⟩
  · cases hend
    obtain ⟨_, mid', hmark, hread⟩ := bind_eq_some_iff.mp hv
    obtain ⟨colon, hcolon, rfl⟩ := punctuator_eq_some_iff.mp hmark
    obtain ⟨ls, rfl, hP⟩ := hitem hread
    exact ⟨l :: colon :: ls, rfl, .given hl hcolon hP⟩
  · cases hend
    exact ⟨[l], rfl, .bare rfl hl⟩

/-- That a field is bare shows only in what follows it. -/
theorem named_complete (hf : FieldOf lenient P f ls)
    (hitem : ∀ n v, f = some (n, v) → ∀ {ls rest}, P v ls → item (ls ++ rest) = some (v, rest))
    (hrest : starts (isPunctuator .colon) rest = false) :
    named item (ls ++ rest) = some (f, rest) := by
  cases hf with
  | @given n v l colon ls hl hcolon hP =>
    have hvalue : optionalIf (isPunctuator .colon) (do punctuator .colon; item)
        (colon :: (ls ++ rest)) = some (some v, rest) := by
      refine optionalIf_of_starts (decide_eq_true hcolon) ?_
      rw [bind_of_eq_some (punctuator_cons hcolon _), hitem n v rfl hP]
    rw [named, List.cons_append, bind_of_eq_some (name_eq_some_iff.mpr ⟨l, hl, rfl⟩),
      List.cons_append, bind_of_eq_some hvalue]
    rfl
  | bare _ hl =>
    rw [named, List.singleton_append, bind_of_eq_some (name_eq_some_iff.mpr ⟨_, hl, rfl⟩),
      bind_of_eq_some (optionalIf_of_not_starts hrest)]
    rfl

end Fields

/-! ## One level -/

/-- The rule for lists, with the rule for what may stand in them. -/
def listAround (item : Rule Value) : Rule Value := do
  punctuator .openBracket
  let items ← repeatWhile (fun t => !isPunctuator .closeBracket t) item
  punctuator .closeBracket
  return .list items

/-- The rule for objects, with the rule for what may stand in them. -/
def objectAround (item : Rule Value) : Rule Value := do
  punctuator .openBrace
  let fields ← repeatWhile isName (named item)
  punctuator .closeBrace
  return .object (fields.filterMap id)

/-- The rule for constant values, with the rule for what may stand in lists and objects. -/
def valueAround (item : Rule Value) : Rule Value := do
  if ← nextIs (isPunctuator .openBracket) then listAround item
  else if ← nextIs (isPunctuator .openBrace) then objectAround item
  else if ← nextIs (isPunctuator .dollar) then refuse
  else take scalarOfToken

section OneLevel

variable {item : Rule Value} {n : Nat}

section Sound

variable (hitem : ∀ {ts v rest}, item ts = some (v, rest) →
  ∃ ls, ts = ls ++ rest ∧ Literal true v ls ∧ v.depth < n)

include hitem

theorem listAround_sound (h : listAround item ts = some (v, rest)) :
    ∃ ls, ts = ls ++ rest ∧ Literal true v ls ∧ v.depth ≤ n := by
  obtain ⟨_, mid, hopen, hafter⟩ := bind_eq_some_iff.mp h
  obtain ⟨l, hl, rfl⟩ := punctuator_eq_some_iff.mp hopen
  obtain ⟨vs, mid', hitems, hend⟩ := bind_eq_some_iff.mp hafter
  obtain ⟨ls, rfl, hrow⟩ := repeatWhile_sound hitem hitems
  obtain ⟨_, _, hclose, heq⟩ := bind_eq_some_iff.mp hend
  obtain ⟨r, hr, rfl⟩ := punctuator_eq_some_iff.mp hclose
  cases heq
  refine ⟨l :: (ls ++ [r]), by simp, .list hl (hrow.imp fun _ _ _ h => h.1) hr, ?_⟩
  rw [Value.depth_list_le_iff]
  intro v hv
  obtain ⟨_, _, hdepth⟩ := hrow.exists_of_mem hv
  exact hdepth

theorem objectAround_sound (h : objectAround item ts = some (v, rest)) :
    ∃ ls, ts = ls ++ rest ∧ Literal true v ls ∧ v.depth ≤ n := by
  obtain ⟨_, mid, hopen, hafter⟩ := bind_eq_some_iff.mp h
  obtain ⟨l, hl, rfl⟩ := punctuator_eq_some_iff.mp hopen
  obtain ⟨fs, mid', hfields, hend⟩ := bind_eq_some_iff.mp hafter
  obtain ⟨ls, rfl, hrow⟩ := repeatWhile_sound (named_sound hitem) hfields
  obtain ⟨_, _, hclose, heq⟩ := bind_eq_some_iff.mp hend
  obtain ⟨r, hr, rfl⟩ := punctuator_eq_some_iff.mp hclose
  cases heq
  have hliteral : InRow (FieldOf true (Literal true)) fs ls :=
    hrow.imp fun _ _ _ h => h.imp id fun _ _ _ _ h => h.1
  refine ⟨l :: (ls ++ [r]), by simp, .object hl hliteral hr, ?_⟩
  rw [Value.depth_object_le_iff]
  intro f hf
  obtain ⟨o, ho, rfl⟩ := List.mem_filterMap.mp hf
  obtain ⟨_, hfield⟩ := hrow.exists_of_mem ho
  cases hfield with
  | given _ _ h => exact h.2

theorem valueAround_sound (h : valueAround item ts = some (v, rest)) :
    ∃ ls, ts = ls ++ rest ∧ Literal true v ls ∧ v.depth ≤ n := by
  rw [valueAround, nextIs_bind] at h
  split at h
  · exact listAround_sound hitem h
  rw [nextIs_bind] at h
  split at h
  · exact objectAround_sound hitem h
  rw [nextIs_bind] at h
  split at h
  · cases h
  · obtain ⟨l, hl, rfl⟩ := take_eq_some_iff.mp h
    exact ⟨[l], rfl, .scalar hl, depth_of_scalarOfToken hl ▸ n.zero_le⟩

end Sound

section Complete

variable (hitem : ∀ {v ls rest}, Literal true v ls → v.depth < n →
  item (ls ++ rest) = some (v, rest))

include hitem

theorem listAround_complete {vs : List Value} {l r : Lexeme}
    (hl : l.token = .punctuator .openBracket) (hrow : InRow (Literal true) vs ls)
    (hr : r.token = .punctuator .closeBracket) (hdepth : ∀ v ∈ vs, v.depth < n) :
    listAround item (l :: (ls ++ r :: rest)) = some (.list vs, rest) := by
  have hitems : repeatWhile (fun t => !isPunctuator .closeBracket t) item
      (ls ++ r :: rest) = some (vs, r :: rest) :=
    repeatWhile_complete (Q := fun _ => True) hrow
      (fun v hv _ _ h _ => hitem h (hdepth v hv)) Literal.exists_eq_cons
      (fun _ => trivial) trivial (by simp [isPunctuator, hr])
  rw [listAround, bind_of_eq_some (punctuator_cons hl _), bind_of_eq_some hitems,
    bind_of_eq_some (punctuator_cons hr _)]
  rfl

theorem objectAround_complete {fs : List (Option (Name × Value))} {l r : Lexeme}
    (hl : l.token = .punctuator .openBrace) (hrow : InRow (FieldOf true (Literal true)) fs ls)
    (hr : r.token = .punctuator .closeBrace) (hdepth : ∀ f ∈ fs.filterMap id, f.2.depth < n) :
    objectAround item (l :: (ls ++ r :: rest)) = some (.object (fs.filterMap id), rest) := by
  have hfields : repeatWhile isName (named item) (ls ++ r :: rest) = some (fs, r :: rest) := by
    refine repeatWhile_complete (Q := fun ts => starts (isPunctuator .colon) ts = false) hrow
      ?round ?head ?see (by simp [isPunctuator, hr]) (by simp [isName, hr])
    case round =>
      intro f hf ls rest h hrest
      refine named_complete h (fun n v heq _ _ h => hitem h (hdepth (n, v) ?_)) hrest
      exact List.mem_filterMap.mpr ⟨f, hf, heq⟩
    case head =>
      intro f ls h
      obtain ⟨l, tail, n, rfl, hname⟩ := h.exists_eq_cons
      exact ⟨l, tail, rfl, by rw [hname, isName]⟩
    case see =>
      intro f ls rest h
      obtain ⟨l, tail, n, rfl, hname⟩ := h.exists_eq_cons
      simp [isPunctuator, hname]
  rw [objectAround, bind_of_eq_some (punctuator_cons hl _), bind_of_eq_some hfields,
    bind_of_eq_some (punctuator_cons hr _)]
  rfl

theorem valueAround_complete (h : Literal true v ls) (hdepth : v.depth ≤ n) :
    valueAround item (ls ++ rest) = some (v, rest) := by
  cases h with
  | @scalar v l hl =>
    have hnext (p : Punctuator) : starts (isPunctuator p) (l :: rest) = false :=
      decide_eq_false (scalarOfToken_punctuator hl p)
    rw [List.singleton_append, valueAround, nextIs_ite_of_not_starts (hnext _),
      nextIs_ite_of_not_starts (hnext _), nextIs_ite_of_not_starts (hnext _)]
    exact take_eq_some_iff.mpr ⟨l, hl, rfl⟩
  | list hl hrow hr =>
    rw [List.cons_append, List.append_assoc, List.singleton_append, valueAround,
      nextIs_ite_of_starts (by simp [isPunctuator, hl])]
    exact listAround_complete hitem hl hrow hr (Value.depth_list_le_iff.mp hdepth)
  | object hl hrow hr =>
    rw [List.cons_append, List.append_assoc, List.singleton_append, valueAround,
      nextIs_ite_of_not_starts (by simp [isPunctuator, hl]),
      nextIs_ite_of_starts (by simp [isPunctuator, hl])]
    exact objectAround_complete hitem hl hrow hr (Value.depth_object_le_iff.mp hdepth)

end Complete

end OneLevel

/-! ## All levels -/

/-- At the innermost level a list has to be empty. -/
theorem listAround_refuse :
    listAround refuse = (do
      punctuator .openBracket
      punctuator .closeBracket
      return .list []) := by
  refine congrArg _ (funext fun _ => funext fun ts => ?_)
  cases hstart : starts (fun t => !isPunctuator .closeBracket t) ts with
  | false => rw [bind_of_eq_some (repeatWhile_of_stop hstart)]
  | true =>
    obtain ⟨l, tail, hl, rfl⟩ := exists_eq_cons_of_starts hstart
    rw [bind_apply, repeatWhile, if_pos hl]
    have hclose : l.token ≠ .punctuator .closeBracket := by simpa [isPunctuator] using hl
    rw [bind_apply, punctuator, take, if_neg hclose]
    rfl

theorem named_refuse_eq_some {f : Option (Name × Value)}
    (h : named refuse ts = some (f, rest)) : ∃ ls, ts = ls ++ rest ∧ f = none := by
  have hitem : ∀ {ts v rest}, (refuse : Rule Value) ts = some (v, rest) →
      ∃ ls, ts = ls ++ rest ∧ False := fun h => by cases h
  obtain ⟨ls, rfl, hfield⟩ := named_sound hitem h
  cases hfield with
  | given _ _ hfalse => exact hfalse.elim
  | bare => exact ⟨_, rfl, rfl⟩

/-- At the innermost level an object has only fields that mean nothing. -/
theorem objectAround_refuse :
    objectAround refuse = (do
      punctuator .openBrace
      let _ ← repeatWhile isName (named (refuse : Rule Value))
      punctuator .closeBrace
      return .object []) := by
  refine congrArg _ (funext fun _ => funext fun ts => ?_)
  cases hfields : repeatWhile isName (named (refuse : Rule Value)) ts with
  | none => rw [bind_apply, bind_apply, hfields]; rfl
  | some p =>
    obtain ⟨fs, rest⟩ := p
    rw [bind_of_eq_some hfields, bind_of_eq_some hfields]
    obtain ⟨ls, rfl, hrow⟩ := repeatWhile_sound named_refuse_eq_some hfields
    have hnone : fs.filterMap id = [] := List.filterMap_eq_nil_iff.mpr fun f hf =>
      (hrow.exists_of_mem hf).elim fun _ h => h
    rw [hnone]

theorem value_zero : value false 0 = valueAround refuse := by
  rw [value, valueAround, listAround_refuse, objectAround_refuse]
  simp only [Bool.false_eq_true, if_false]

theorem value_succ (d : Nat) : value false (d + 1) = valueAround (value false d) := by
  rw [value, valueAround, listAround, objectAround]
  simp only [Bool.false_eq_true, if_false]

theorem value_sound {d : Nat} (h : value false d ts = some (v, rest)) :
    ∃ ls, ts = ls ++ rest ∧ Literal true v ls ∧ v.depth ≤ d := by
  induction d generalizing ts v rest with
  | zero =>
    rw [value_zero] at h
    exact valueAround_sound (fun h => by cases h) h
  | succ d ih =>
    rw [value_succ] at h
    refine valueAround_sound (fun h => ?_) h
    obtain ⟨ls, hls, hv, hdepth⟩ := ih h
    exact ⟨ls, hls, hv, Nat.lt_succ_of_le hdepth⟩

theorem value_complete {d : Nat} (h : Literal true v ls) (hdepth : v.depth ≤ d) :
    value false d (ls ++ rest) = some (v, rest) := by
  induction d generalizing v ls rest with
  | zero =>
    rw [value_zero]
    exact valueAround_complete (fun _ h => absurd h (Nat.not_lt_zero _)) h hdepth
  | succ d ih =>
    rw [value_succ]
    exact valueAround_complete (fun h hlt => ih h (Nat.le_of_lt_succ hlt)) h hdepth

/-- The rule for values takes a literal that is not nested deeper than it allows, and leaves what
follows it. -/
theorem value_eq_some_iff {d : Nat} :
    value false d ts = some (v, rest) ↔
      ∃ ls, ts = ls ++ rest ∧ Literal true v ls ∧ v.depth ≤ d := by
  constructor
  · exact value_sound
  · rintro ⟨ls, rfl, h, hdepth⟩
    exact value_complete h hdepth

/-- No literal is the beginning of another one. -/
theorem Literal.unique {v' : Value} {ls' rest' : List Lexeme} (h : Literal true v ls)
    (h' : Literal true v' ls') (heq : ls ++ rest = ls' ++ rest') : v = v' ∧ ls = ls' := by
  have hread : value false (max v.depth v'.depth) (ls ++ rest) = some (v, rest) :=
    value_complete h (Nat.le_max_left _ _)
  have hread' : value false (max v.depth v'.depth) (ls' ++ rest') = some (v', rest') :=
    value_complete h' (Nat.le_max_right _ _)
  rw [heq, hread'] at hread
  cases hread
  exact ⟨rfl, List.append_cancel_right heq⟩

/-- The lenient grammar has every literal. -/
theorem Literal.toLenient (h : Literal lenient v ls) : Literal true v ls := by
  generalize hn : v.depth = n
  induction n using Nat.strongRecOn generalizing v ls with
  | ind n ih =>
    subst hn
    cases h with
    | scalar hl => exact .scalar hl
    | @list vs _ _ _ hl hrow hr =>
      have hdepth := Value.depth_list_le_iff.mp (Nat.le_refl (Value.list vs).depth)
      exact .list hl (hrow.imp fun v hv _ h => ih _ (hdepth v hv) h rfl) hr
    | @object fs _ _ _ hl hrow hr =>
      have hdepth := Value.depth_object_le_iff.mp
        (Nat.le_refl (Value.object (fs.filterMap id)).depth)
      refine .object hl (hrow.imp fun f hf _ h => h.imp (fun _ => rfl) fun n v heq _ h => ?_) hr
      have hmem : (n, v) ∈ fs.filterMap id := List.mem_filterMap.mpr ⟨f, hf, heq⟩
      exact ih _ (hdepth (n, v) hmem) h rfl

end

end Sdl

end SchemaWeave
