import SchemaWeave.Proofs.Sdl.Scanner

/-!
# Texts cut into tokens

`Spells` says which tokens a text is made of, without saying where a scanner has got to, and how
the text ends: between tokens or in a comment that is still open. Together these say how the text
is cut when a blank and more stand behind it.
-/

namespace SchemaWeave.Sdl

open Text

/-! ## Texts -/

/-- How a text ends: between two tokens, perhaps after a comma, or in a comment. -/
inductive Ending where
  | between (afterComma : Bool)
  | inComment
deriving DecidableEq

/-- Whether a text begins with a quoted string and the string with a line end. -/
def opensLine (c : Char) (cs : List Char) : Bool := c == '"' && cs.head?.any isLineEnd

/-- The tokens of a text that may begin after a comma, and the text's end. The lenient grammar has
quoted strings that begin with a line end. -/
inductive Spells (lenient : Bool) : Bool → List Char → List Lexeme → Ending → Prop
  | done {afterComma : Bool} : Spells lenient afterComma [] [] (.between afterComma)
  | comma {afterComma : Bool} {cs : List Char} {ls : List Lexeme} {e : Ending} :
      Spells lenient true cs ls e → Spells lenient afterComma (',' :: cs) ls e
  | ignored {afterComma : Bool} {c : Char} {cs : List Char} {ls : List Lexeme} {e : Ending} :
      isIgnored c = true → Spells lenient afterComma cs ls e →
      Spells lenient afterComma (c :: cs) ls e
  | comment {afterComma : Bool} {c : Char} {text cs : List Char} {ls : List Lexeme} {e : Ending} :
      (∀ c ∈ text, isLineEnd c = false) → isLineEnd c = true → Spells lenient afterComma cs ls e →
      Spells lenient afterComma ('#' :: (text ++ c :: cs)) ls e
  | openComment {afterComma : Bool} {text : List Char} :
      (∀ c ∈ text, isLineEnd c = false) → Spells lenient afterComma ('#' :: text) [] .inComment
  | token {afterComma : Bool} {c : Char} {cs rest : List Char} {token : Token}
      {ls : List Lexeme} {e : Ending} :
      Takes (scanToken c cs) token rest → (opensLine c cs = true → lenient = true) →
      Spells lenient false rest ls e →
      Spells lenient afterComma (c :: cs) (⟨token, afterComma⟩ :: ls) e

section

variable {lenient afterComma : Bool} {c : Char} {cs text : List Char} {token : Token}
  {ls : List Lexeme} {e : Ending}

theorem Spells.toLenient (h : Spells lenient afterComma cs ls e) :
    Spells true afterComma cs ls e := by
  induction h with
  | done => exact .done
  | comma _ ih => exact .comma ih
  | ignored hc _ ih => exact .ignored hc ih
  | comment htext hc _ ih => exact .comment htext hc ih
  | openComment htext => exact .openComment htext
  | token htoken _ _ ih => exact .token htoken (fun _ => rfl) ih

/-! ## Scanning -/

theorem isIgnored_of_isLineEnd {c : Char} (h : isLineEnd c = true) : isIgnored c = true := by
  simp only [isLineEnd, isIgnored, Bool.or_eq_true] at h ⊢
  rcases h with h | h
  · exact .inl (.inl (.inr h))
  · exact .inl (.inr h)

theorem scan_comma : scan afterComma (',' :: cs) = scan true cs := by
  rw [scan, if_pos (by decide)]

theorem scan_ignored (h : isIgnored c = true) : scan afterComma (c :: cs) = scan afterComma cs := by
  have hcomma : (c == ',') = false := by
    refine beq_eq_false_iff_ne.mpr ?_
    rintro rfl
    exact absurd h (by decide)
  rw [scan, hcomma, if_neg (by decide), if_pos h]

theorem scan_comment (htext : ∀ c ∈ text, isLineEnd c = false)
    (hc : isLineEnd c = true) :
    scan afterComma ('#' :: (text ++ c :: cs)) = scan afterComma cs := by
  have hleft : (text ++ c :: cs).dropWhile (fun c => !isLineEnd c) = c :: cs := by
    rw [List.dropWhile_append_of_pos fun d hd => by simp [htext d hd], List.dropWhile_cons_of_neg]
    simp [hc]
  rw [scan, if_neg (by decide), if_neg (by decide), if_pos (by decide), Rest.span_snd, hleft,
    scan_ignored (isIgnored_of_isLineEnd hc)]

/-- A token does not begin like what stands between tokens. -/
theorem not_between_of_scanToken {p : Token × Rest cs} (h : scanToken c cs = some p) :
    (c == ',') = false ∧ isIgnored c = false ∧ (c == '#') = false := by
  have hne : ∀ d ∈ [',', ' ', '\t', '\n', '\r', '\uFEFF', '#'], c ≠ d := by
    rintro d hd rfl
    simp only [List.mem_cons, List.not_mem_nil, or_false] at hd
    rcases hd with rfl | rfl | rfl | rfl | rfl | rfl | rfl <;> cases h
  simp only [List.forall_mem_cons] at hne
  simp [isIgnored, hne]

theorem scan_token {rest : Rest cs} (h : scanToken c cs = some (token, rest)) :
    scan afterComma (c :: cs) = (scan false rest.1).map (⟨token, afterComma⟩ :: ·) := by
  obtain ⟨hcomma, hignored, hcomment⟩ := not_between_of_scanToken h
  rw [scan, hcomma, hignored, hcomment, if_neg Bool.false_ne_true, if_neg Bool.false_ne_true,
    if_neg Bool.false_ne_true, h]

theorem scan_openComment (htext : ∀ c ∈ text, isLineEnd c = false) :
    scan afterComma ('#' :: text) = some [] := by
  have hleft : text.dropWhile (fun c => !isLineEnd c) = [] := by
    rw [← List.append_nil text, List.dropWhile_append_of_pos fun c hc => by simp [htext c hc]]
    rfl
  rw [scan, if_neg (by decide), if_neg (by decide), if_pos (by decide), Rest.span_snd, hleft, scan]

/-! ## Texts with something behind them -/

namespace Ending

/-- The tokens of what stands behind a text and a blank. An open comment takes in its line. -/
def scanAfter (after : List Char) : Ending → Option (List Lexeme)
  | between afterComma => scan afterComma after
  | inComment => some []

/-- A closing brace behind a text, unless it is hidden in a comment. -/
def brace : Ending → List Lexeme
  | between afterComma => [⟨.punctuator .closeBrace, afterComma⟩]
  | inComment => []

theorem scanAfter_brace (e : Ending) : e.scanAfter ['\x7d'] = some e.brace := by
  cases e with
  | inComment => rfl
  | between afterComma =>
    rw [scanAfter, scan_token rfl]
    show (scan false []).map _ = _
    rw [scan]
    rfl

end Ending

/-- The tokens of a text come before those of what stands behind it. -/
theorem Spells.scan_append_blank (h : Spells lenient afterComma cs ls e) {after : List Char}
    (hafter : e = .inComment → ∀ c ∈ after, isLineEnd c = false) :
    scan afterComma (cs ++ ' ' :: after) = (e.scanAfter after).map (ls ++ ·) := by
  induction h with
  | done =>
    rw [List.nil_append, scan_ignored (by decide)]
    exact Option.map_id'.symm
  | comma _ ih => rw [List.cons_append, scan_comma, ih hafter]
  | ignored hc _ ih => rw [List.cons_append, scan_ignored hc, ih hafter]
  | comment htext hc _ ih =>
    rw [List.cons_append, List.append_assoc, List.cons_append, scan_comment htext hc, ih hafter]
  | openComment htext =>
    rw [List.cons_append, scan_openComment]
    · rfl
    · rw [List.forall_mem_append, List.forall_mem_cons]
      exact ⟨htext, rfl, hafter rfl⟩
  | token htoken _ _ ih =>
    obtain ⟨_, htoken⟩ := ((scanToken_ends _).stops htoken after).exists
    rw [List.cons_append, scan_token htoken, ih hafter, Option.map_map]
    rfl

theorem Ending.scanAfter_nil (e : Ending) : e.scanAfter [] = some [] := by
  cases e with
  | inComment => rfl
  | between => rw [scanAfter, scan]

/-- The tokens of a text are its own. -/
theorem Spells.unique {lenient' : Bool} {ls' : List Lexeme} {e' : Ending}
    (h : Spells lenient afterComma cs ls e) (h' : Spells lenient' afterComma cs ls' e') :
    ls = ls' := by
  have hscan : scan afterComma (cs ++ [' ']) = _ := h.scan_append_blank fun _ => by simp
  rw [h'.scan_append_blank fun _ => by simp, e.scanAfter_nil, e'.scanAfter_nil] at hscan
  simpa using hscan.symm

/-- A text is one line, or it has a first line. -/
theorem line_cases (cs : List Char) : (∀ c ∈ cs, isLineEnd c = false) ∨ ∃ text c tail,
    cs = text ++ c :: tail ∧ (∀ c ∈ text, isLineEnd c = false) ∧ isLineEnd c = true := by
  induction cs with
  | nil => exact .inl (by simp)
  | cons c cs ih =>
    cases hc : isLineEnd c with
    | true => exact .inr ⟨[], c, cs, rfl, by simp, hc⟩
    | false =>
      rcases ih with hall | ⟨text, d, tail, rfl, htext, hd⟩
      · exact .inl (List.forall_mem_cons.mpr ⟨hc, hall⟩)
      · exact .inr ⟨c :: text, d, tail, rfl, List.forall_mem_cons.mpr ⟨hc, htext⟩, hd⟩

/-- A text that can be cut into tokens when a closing brace stands behind it can be cut by
itself. -/
theorem Spells.of_scan {ts : List Lexeme} (h : scan afterComma (cs ++ [' ', '\x7d']) = some ts) :
    ∃ ls e, Spells true afterComma cs ls e ∧ ts = ls ++ e.brace := by
  -- comments and tokens take any number of characters, so the induction is on the length
  induction hn : cs.length using Nat.strongRecOn generalizing afterComma cs ts with
  | ind n ih =>
    subst hn
    cases cs with
    | nil =>
      rw [List.nil_append, scan_ignored (by decide)] at h
      have hbrace := h.symm.trans (Ending.scanAfter_brace (.between afterComma))
      exact ⟨[], _, .done, Option.some.inj hbrace⟩
    | cons c cs =>
      rw [List.cons_append] at h
      by_cases hcomma : c = ','
      · subst hcomma
        rw [scan_comma] at h
        obtain ⟨ls, e, hspells, rfl⟩ := ih _ (Nat.lt_succ_self _) h rfl
        exact ⟨ls, e, .comma hspells, rfl⟩
      by_cases hignored : isIgnored c = true
      · rw [scan_ignored hignored] at h
        obtain ⟨ls, e, hspells, rfl⟩ := ih _ (Nat.lt_succ_self _) h rfl
        exact ⟨ls, e, .ignored hignored hspells, rfl⟩
      by_cases hcomment : c = '#'
      · subst hcomment
        rcases line_cases cs with htext | ⟨text, d, tail, rfl, htext, hd⟩
        · -- the comment goes on over the brace
          rw [scan_openComment (List.forall_mem_append.mpr ⟨htext, by simp [isLineEnd]⟩)] at h
          cases h
          exact ⟨[], _, .openComment htext, rfl⟩
        · rw [List.append_assoc, List.cons_append, scan_comment htext hd] at h
          have hlt : tail.length < ('#' :: (text ++ d :: tail)).length := by simp; omega
          obtain ⟨ls, e, hspells, rfl⟩ := ih _ hlt h rfl
          exact ⟨ls, e, .comment htext hd hspells, rfl⟩
      cases htoken : scanToken c (cs ++ [' ', '\x7d']) with
      | none =>
        rw [scan, if_neg (by simpa using hcomma), if_neg hignored, if_neg (by simpa using hcomment),
          htoken] at h
        cases h
      | some p =>
        obtain ⟨token, rest⟩ := p
        rw [scan_token htoken] at h
        obtain ⟨ts', hscan, rfl⟩ := Option.map_eq_some_iff.mp h
        obtain ⟨rest', htoken', hrest⟩ := (scanToken_ends c).within (.of_eq_some htoken)
        rw [hrest] at hscan
        obtain ⟨ls, e, hspells, rfl⟩ := ih _ (Nat.lt_succ_of_le htoken'.length_le) hscan rfl
        exact ⟨_, e, .token htoken' (fun _ => rfl) hspells, rfl⟩

end

end SchemaWeave.Sdl
