import SchemaWeave.Sdl.Token
import SchemaWeave.Proofs.Text.Takes

/-!
# Strings end by themselves

What a scanner takes from the front of a text should not change when a blank and more are put
behind the text. No escape goes on over a blank (`StopsAtBlank`). A string does, but its quotes are
in the text, since there are none in the blank and the closing brace that are put behind a default
value (`EndsAtBlank`).

For each scanner an equivalence says what it takes, and the rest follows from it.
-/

namespace SchemaWeave.Sdl

open Text

/-- Whether a scanner takes the same from a text when a blank follows: it stops there whatever comes
after the blank, and it takes nothing of a closing brace. -/
structure EndsAtBlank {α : Type} (f : (cs : List Char) → Option (α × Rest cs)) : Prop where
  stops : ∀ ⦃cs : List Char⦄ ⦃a : α⦄ ⦃rest : List Char⦄, Takes (f cs) a rest →
    ∀ after, Takes (f (cs ++ ' ' :: after)) a (rest ++ ' ' :: after)
  within : ∀ ⦃cs : List Char⦄ ⦃a : α⦄ ⦃rest : List Char⦄, Takes (f (cs ++ [' ', '\x7d'])) a rest →
    ∃ rest', Takes (f cs) a rest' ∧ rest = rest' ++ [' ', '\x7d']

/-- Whether a scanner stops at a blank, or fails there, whatever comes after it. -/
def StopsAtBlank {α : Type} (f : (cs : List Char) → Option (α × Rest cs)) : Prop :=
  ∀ ⦃cs : List Char⦄ ⦃a : α⦄ ⦃rest : List Char⦄ (after : List Char),
    Takes (f (cs ++ ' ' :: after)) a rest ↔
      ∃ rest', Takes (f cs) a rest' ∧ rest = rest' ++ ' ' :: after

theorem StopsAtBlank.ends {α : Type} {f : (cs : List Char) → Option (α × Rest cs)}
    (h : StopsAtBlank f) : EndsAtBlank f where
  stops := fun _ _ rest hf after => (h after).mpr ⟨rest, hf, rfl⟩
  within := fun _ _ _ hf => (h ['\x7d']).mp hf

/-- What a text begins with when a blank and more follow, it begins with by itself. -/
theorem exists_of_append_blank (mark : List Char) (hmark : ' ' ∉ mark) {cs after tail : List Char}
    (h : cs ++ ' ' :: after = mark ++ tail) :
    ∃ tail', cs = mark ++ tail' ∧ tail = tail' ++ ' ' :: after := by
  rcases List.append_eq_append_iff.mp h with ⟨more, rfl, hmore⟩ | ⟨tail', rfl, rfl⟩
  · cases more with
    | nil => exact ⟨[], by simp, hmore.symm⟩
    | cons c more =>
      -- the mark would go on over the blank
      obtain ⟨rfl, -⟩ := List.cons.inj hmore
      exact absurd (List.mem_append_right _ List.mem_cons_self) hmark
  · exact ⟨tail', rfl, rfl⟩

/-! ## Quoted strings -/

theorem hexValue?_eq_none_of_mem {cs : List Char} (h : ' ' ∈ cs) : hexValue? cs = none := by
  have hfold (n : Nat) : cs.foldlM (fun n c => (hexDigit? c).map (16 * n + ·)) n = none := by
    induction cs generalizing n with
    | nil => cases h
    | cons c cs ih =>
      rw [List.foldlM_cons]
      rcases List.mem_cons.mp h with rfl | h
      · rfl
      · cases hexDigit? c with
        | none => rfl
        | some d => exact ih h _
  exact hfold 0

theorem takes_scanFourHex_iff {cs rest : List Char} {n : Nat} :
    Takes (scanFourHex cs) n rest ↔
      ∃ a b c d, cs = a :: b :: c :: d :: rest ∧ hexValue? [a, b, c, d] = some n := by
  constructor
  · intro h
    obtain ⟨_, h⟩ := h.exists
    unfold scanFourHex at h
    split at h
    · obtain ⟨n', hn, heq⟩ := Option.map_eq_some_iff.mp h
      cases heq
      exact ⟨_, _, _, _, rfl, hn⟩
    · cases h
  · rintro ⟨a, b, c, d, rfl, hn⟩
    rw [scanFourHex, hn]
    rfl

theorem scanFourHex_stops : StopsAtBlank scanFourHex := by
  intro cs n rest after
  simp only [takes_scanFourHex_iff]
  constructor
  · rintro ⟨a, b, c, d, heq, hn⟩
    have hblank : ' ' ∉ [a, b, c, d] := fun hmem => by
      rw [hexValue?_eq_none_of_mem hmem] at hn
      cases hn
    obtain ⟨rest', rfl, hrest⟩ := exists_of_append_blank _ hblank heq
    exact ⟨rest', ⟨a, b, c, d, rfl, hn⟩, hrest⟩
  · rintro ⟨rest', ⟨a, b, c, d, rfl, hn⟩, rfl⟩
    exact ⟨a, b, c, d, rfl, hn⟩

theorem takes_scanLowSurrogate_iff {cs rest : List Char} {n : Nat} :
    Takes (scanLowSurrogate cs) n rest ↔
      ∃ tail, cs = '\\' :: 'u' :: tail ∧ Takes (scanFourHex tail) n rest := by
  constructor
  · intro h
    obtain ⟨_, h⟩ := h.exists
    unfold scanLowSurrogate at h
    split at h
    · obtain ⟨_, hhex, heq⟩ := Option.bind_eq_some_iff.mp h
      cases heq
      exact ⟨_, rfl, .of_eq_some hhex⟩
    · cases h
  · rintro ⟨tail, rfl, h⟩
    obtain ⟨_, h⟩ := h.exists
    rw [scanLowSurrogate, h]
    rfl

theorem scanLowSurrogate_stops : StopsAtBlank scanLowSurrogate := by
  intro cs n rest after
  simp only [takes_scanLowSurrogate_iff]
  constructor
  · rintro ⟨tail, heq, hhex⟩
    obtain ⟨tail', rfl, rfl⟩ := exists_of_append_blank ['\\', 'u'] (by decide) heq
    obtain ⟨rest', hhex', hrest⟩ := (scanFourHex_stops after).mp hhex
    exact ⟨rest', ⟨tail', rfl, hhex'⟩, hrest⟩
  · rintro ⟨rest', ⟨tail, rfl, hhex⟩, rfl⟩
    exact ⟨_, rfl, (scanFourHex_stops after).mpr ⟨rest', hhex, rfl⟩⟩

theorem takes_scanUnicode_brace_iff {cs rest : List Char} {char : Char} :
    Takes (scanUnicode ('\x7b' :: cs)) char rest ↔
      cs.takeWhile (fun c => c != '\x7d') ≠ [] ∧
        (hexValue? (cs.takeWhile fun c => c != '\x7d')).bind charOfCode? = some char ∧
        ∃ c, cs.dropWhile (fun c => c != '\x7d') = c :: rest := by
  rw [← Rest.span_fst, ← Rest.span_snd, scanUnicode]
  generalize Rest.span (fun c => c != '\x7d') cs = p
  obtain ⟨digits, left, hleft⟩ := p
  cases left with
  | nil => simp [Takes]
  | cons c after =>
    cases digits with
    | nil => simp [Takes]
    | cons d digits =>
      cases hvalue : hexValue? (d :: digits) with
      | none => simp [Takes, hvalue]
      | some code => cases hcode : charOfCode? code <;> simp [Takes, hvalue, hcode]

theorem takes_scanUnicode_iff {cs rest : List Char} {char : Char}
    (hcs : ∀ tail, cs ≠ '\x7b' :: tail) :
    Takes (scanUnicode cs) char rest ↔ ∃ code mid, Takes (scanFourHex cs) code mid ∧
      ((isHighSurrogate code = true ∧ ∃ low, Takes (scanLowSurrogate mid) low rest ∧
          charOfSurrogates? code low = some char) ∨
        (isHighSurrogate code = false ∧ charOfCode? code = some char ∧ mid = rest)) := by
  rw [scanUnicode]
  · constructor
    · intro h
      obtain ⟨_, h⟩ := h.exists
      obtain ⟨⟨code, mid⟩, hhex, h⟩ := Option.bind_eq_some_iff.mp h
      refine ⟨code, mid.1, .of_eq_some hhex, ?_⟩
      dsimp only at h
      split at h
      · next hhigh =>
        obtain ⟨⟨low, rest'⟩, hlow, h⟩ := Option.bind_eq_some_iff.mp h
        obtain ⟨char', hchar, heq⟩ := Option.bind_eq_some_iff.mp h
        cases heq
        exact .inl ⟨hhigh, low, .of_eq_some hlow, hchar⟩
      · next hhigh =>
        obtain ⟨char', hchar, heq⟩ := Option.bind_eq_some_iff.mp h
        cases heq
        exact .inr ⟨eq_false_of_ne_true hhigh, hchar, rfl⟩
    · rintro ⟨code, mid, hhex, ⟨hhigh, low, hlow, hchar⟩ | ⟨hhigh, hchar, rfl⟩⟩
      all_goals obtain ⟨_, hhex⟩ := hhex.exists
      · obtain ⟨_, hlow⟩ := hlow.exists
        simp only [hhex, Option.bind_eq_bind, Option.bind_some, hhigh, if_true, hlow, hchar]
        rfl
      · simp only [hhex, Option.bind_eq_bind, Option.bind_some, hhigh, hchar]
        rfl
  · exact hcs

theorem ne_cons_append_blank {c : Char} (hc : c ≠ ' ') {cs : List Char}
    (h : ∀ tail, cs ≠ c :: tail) (after tail : List Char) : cs ++ ' ' :: after ≠ c :: tail := by
  intro heq
  obtain ⟨tail', hcs, -⟩ := exists_of_append_blank [c] (by simpa using hc.symm) heq
  exact h tail' hcs

theorem exists_eq_cons_or (c : Char) (cs : List Char) :
    (∃ tail, cs = c :: tail) ∨ ∀ tail, cs ≠ c :: tail := by
  by_cases h : ∃ tail, cs = c :: tail
  · exact .inl h
  · exact .inr fun tail heq => h ⟨tail, heq⟩

theorem takeWhile_append_of_dropWhile {p : Char → Bool} {cs tail : List Char} {c : Char}
    (h : cs.dropWhile p = c :: tail) (after : List Char) :
    (cs ++ after).takeWhile p = cs.takeWhile p ∧
      (cs ++ after).dropWhile p = c :: (tail ++ after) := by
  induction cs with
  | nil => cases h
  | cons d cs ih =>
    cases hd : p d with
    | false => simp_all
    | true =>
      rw [List.dropWhile_cons_of_pos hd] at h
      obtain ⟨htake, hdrop⟩ := ih h
      simp [hd, htake, hdrop]

theorem mem_takeWhile_of_dropWhile_eq_nil {p : Char → Bool} {cs : List Char} {c : Char}
    (h : cs.dropWhile p = []) (hc : p c = true) (after : List Char) :
    c ∈ (cs ++ c :: after).takeWhile p := by
  have h : ∀ d ∈ cs, p d = true := by
    induction cs with
    | nil => exact fun _ hd => by cases hd
    | cons d cs ih =>
      cases hd : p d with
      | false => simp [hd] at h
      | true =>
        rw [List.dropWhile_cons_of_pos hd] at h
        exact List.forall_mem_cons.mpr ⟨hd, ih h⟩
  rw [List.takeWhile_append_of_pos h, List.takeWhile_cons_of_pos hc]
  exact List.mem_append_right _ List.mem_cons_self

theorem scanUnicode_stops : StopsAtBlank scanUnicode := by
  intro cs char rest after
  rcases exists_eq_cons_or '\x7b' cs with ⟨cs, rfl⟩ | hne
  · rw [List.cons_append]
    simp only [takes_scanUnicode_brace_iff]
    cases hleft : cs.dropWhile (fun c => c != '\x7d') with
    | nil =>
      -- no brace in the text, so the digits go on to the blank
      have hblank := mem_takeWhile_of_dropWhile_eq_nil hleft (c := ' ') (by decide) after
      simp [hexValue?_eq_none_of_mem hblank]
    | cons c tail =>
      obtain ⟨htake, hdrop⟩ := takeWhile_append_of_dropWhile hleft (' ' :: after)
      rw [htake, hdrop]
      constructor
      · rintro ⟨hdigits, hchar, brace, hbrace⟩
        cases hbrace
        exact ⟨tail, ⟨hdigits, hchar, c, rfl⟩, rfl⟩
      · rintro ⟨rest', ⟨hdigits, hchar, brace, hbrace⟩, rfl⟩
        cases hbrace
        exact ⟨hdigits, hchar, c, rfl⟩
  · simp only [takes_scanUnicode_iff (ne_cons_append_blank (by decide) hne after),
      takes_scanUnicode_iff hne]
    constructor
    · rintro ⟨code, mid, hhex, hchar⟩
      obtain ⟨mid', hhex', rfl⟩ := (scanFourHex_stops after).mp hhex
      rcases hchar with ⟨hhigh, low, hlow, hchar⟩ | ⟨hhigh, hchar, rfl⟩
      · obtain ⟨rest', hlow', hrest⟩ := (scanLowSurrogate_stops after).mp hlow
        exact ⟨rest', ⟨code, mid', hhex', .inl ⟨hhigh, low, hlow', hchar⟩⟩, hrest⟩
      · exact ⟨mid', ⟨code, mid', hhex', .inr ⟨hhigh, hchar, rfl⟩⟩, rfl⟩
    · rintro ⟨rest', ⟨code, mid, hhex, hchar⟩, rfl⟩
      refine ⟨code, _, (scanFourHex_stops after).mpr ⟨mid, hhex, rfl⟩, ?_⟩
      rcases hchar with ⟨hhigh, low, hlow, hchar⟩ | ⟨hhigh, hchar, rfl⟩
      · exact .inl ⟨hhigh, low, (scanLowSurrogate_stops after).mpr ⟨_, hlow, rfl⟩, hchar⟩
      · exact .inr ⟨hhigh, hchar, rfl⟩

theorem takes_scanEscape_u_iff {cs rest : List Char} {char : Char} :
    Takes (scanEscape ('u' :: cs)) char rest ↔ Takes (scanUnicode cs) char rest := by
  rw [scanEscape]
  refine (takes_map_iff (f := id) (k := Rest.ofTail) fun _ => rfl).trans ?_
  simp

/-- An escape of one letter. -/
theorem takes_scanEscape_iff {c : Char} (hc : c ≠ 'u') : ∃ o : Option Char, ∀ {cs char rest},
    Takes (scanEscape (c :: cs)) char rest ↔ o = some char ∧ cs = rest := by
  refine ⟨(scanEscape [c]).map (·.1), fun {cs char rest} => ?_⟩
  unfold scanEscape
  dsimp only
  split <;> simp_all [Takes, Rest.tail]

theorem scanEscape_stops : StopsAtBlank scanEscape := by
  intro cs char rest after
  cases cs with
  | nil =>
    refine iff_of_false not_takes_none ?_
    rintro ⟨_, h, -⟩
    exact not_takes_none h
  | cons c cs =>
    rw [List.cons_append]
    by_cases hc : c = 'u'
    · subst hc
      simp only [takes_scanEscape_u_iff]
      exact scanUnicode_stops after
    · obtain ⟨o, hescape⟩ := takes_scanEscape_iff hc
      simp only [hescape]
      constructor
      · rintro ⟨ho, rfl⟩
        exact ⟨cs, ⟨ho, rfl⟩, rfl⟩
      · rintro ⟨rest', ⟨ho, rfl⟩, rfl⟩
        exact ⟨ho, rfl⟩

theorem takes_scanQuoted_escape_iff {cs chars rest : List Char} :
    Takes (scanQuoted ('\\' :: cs)) chars rest ↔ ∃ char mid more,
      Takes (scanEscape cs) char mid ∧ Takes (scanQuoted mid) more rest ∧ char :: more = chars := by
  rw [scanQuoted]
  split
  · next hescape => simp [hescape, not_takes_none]
  · next char mid hescape =>
    refine (takes_map_iff (k := fun r => (mid.trans r).ofTail) fun _ => rfl).trans ?_
    constructor
    · rintro ⟨more, hmore, rfl⟩
      exact ⟨char, mid.1, more, .of_eq_some hescape, hmore, rfl⟩
    · rintro ⟨char', mid', more, hescape', hmore, rfl⟩
      rw [Takes, hescape] at hescape'
      cases hescape'
      exact ⟨more, hmore, rfl⟩

theorem takes_scanQuoted_iff {c : Char} (hquote : c ≠ '"') (hescape : c ≠ '\\')
    {cs chars rest : List Char} : Takes (scanQuoted (c :: cs)) chars rest ↔
      isLineEnd c = false ∧ ∃ more, Takes (scanQuoted cs) more rest ∧ c :: more = chars := by
  rw [scanQuoted]
  · split
    · next hline => simp [hline, not_takes_none]
    · next hline =>
      refine (takes_map_iff (k := Rest.ofTail) fun _ => rfl).trans ?_
      simp [hline]
  · exact hquote
  · exact hescape

theorem takes_scanQuoted_quote_iff {cs chars rest : List Char} :
    Takes (scanQuoted ('"' :: cs)) chars rest ↔ chars = [] ∧ cs = rest := by
  rw [scanQuoted]
  simp [Takes, Rest.tail, eq_comm]

theorem not_takes_scanQuoted_nil {chars rest : List Char} : ¬ Takes (scanQuoted []) chars rest := by
  rw [scanQuoted]
  exact not_takes_none

/-- How quoted strings are taken apart: at their quotes, at their escapes and elsewhere. -/
theorem quoted_induct {P : List Char → Prop} (nil : P []) (quote : ∀ cs, P ('"' :: cs))
    (escape : ∀ cs, (∀ mid, mid.length ≤ cs.length → P mid) → P ('\\' :: cs))
    (other : ∀ c cs, c ≠ '"' → c ≠ '\\' → P cs → P (c :: cs)) (cs : List Char) : P cs := by
  -- an escape takes more than one character, so the induction is on the length
  induction hn : cs.length using Nat.strongRecOn generalizing cs with
  | ind n ih =>
    subst hn
    cases cs with
    | nil => exact nil
    | cons c cs =>
      by_cases hquote : c = '"'
      · exact hquote ▸ quote cs
      by_cases hescape : c = '\\'
      · subst hescape
        exact escape cs fun mid hmid => ih _ (Nat.lt_succ_of_le hmid) mid rfl
      · exact other c cs hquote hescape (ih _ (Nat.lt_succ_self _) cs rfl)

theorem scanQuoted_ends : EndsAtBlank scanQuoted where
  stops := by
    intro cs chars rest h after
    induction cs using quoted_induct generalizing chars rest with
    | nil => exact absurd h not_takes_scanQuoted_nil
    | quote cs =>
      obtain ⟨rfl, rfl⟩ := takes_scanQuoted_quote_iff.mp h
      exact takes_scanQuoted_quote_iff.mpr ⟨rfl, rfl⟩
    | escape cs ih =>
      obtain ⟨char, mid, more, hescape, hmore, rfl⟩ := takes_scanQuoted_escape_iff.mp h
      exact takes_scanQuoted_escape_iff.mpr ⟨char, _, more,
        scanEscape_stops.ends.stops hescape after, ih mid hescape.length_le hmore, rfl⟩
    | other c cs hquote hescape ih =>
      obtain ⟨hline, more, hmore, rfl⟩ := (takes_scanQuoted_iff hquote hescape).mp h
      exact (takes_scanQuoted_iff hquote hescape).mpr ⟨hline, more, ih hmore, rfl⟩
  within := by
    intro cs chars rest h
    induction cs using quoted_induct generalizing chars rest with
    | nil =>
      simp [takes_scanQuoted_iff, not_takes_scanQuoted_nil] at h
    | quote cs =>
      obtain ⟨rfl, rfl⟩ := takes_scanQuoted_quote_iff.mp h
      exact ⟨cs, takes_scanQuoted_quote_iff.mpr ⟨rfl, rfl⟩, rfl⟩
    | escape cs ih =>
      obtain ⟨char, mid, more, hescape, hmore, rfl⟩ := takes_scanQuoted_escape_iff.mp h
      obtain ⟨mid', hescape', rfl⟩ := scanEscape_stops.ends.within hescape
      obtain ⟨rest', hmore', rfl⟩ := ih mid' hescape'.length_le hmore
      exact ⟨rest', takes_scanQuoted_escape_iff.mpr ⟨char, mid', more, hescape', hmore', rfl⟩, rfl⟩
    | other c cs hquote hescape ih =>
      obtain ⟨hline, more, hmore, rfl⟩ := (takes_scanQuoted_iff hquote hescape).mp h
      obtain ⟨rest', hmore', rfl⟩ := ih hmore
      exact ⟨rest', (takes_scanQuoted_iff hquote hescape).mpr ⟨hline, more, hmore', rfl⟩, rfl⟩

/-! ## Block strings -/

theorem takes_scanBlock_close_iff {cs chars rest : List Char} :
    Takes (scanBlock ('"' :: '"' :: '"' :: cs)) chars rest ↔ chars = [] ∧ cs = rest := by
  rw [scanBlock]
  simp [Takes, Rest.ofTail, Rest.all, eq_comm]

theorem takes_scanBlock_escape_iff {cs chars rest : List Char} :
    Takes (scanBlock ('\\' :: '"' :: '"' :: '"' :: cs)) chars rest ↔
      ∃ more, Takes (scanBlock cs) more rest ∧ '"' :: '"' :: '"' :: more = chars := by
  rw [scanBlock]
  exact takes_map_iff (f := fun more => '"' :: '"' :: '"' :: more)
    (k := fun r => r.ofTail.ofTail.ofTail.ofTail) fun _ => rfl

theorem takes_scanBlock_iff {c : Char} {cs chars rest : List Char}
    (hclose : ∀ tail, c = '"' → cs = '"' :: '"' :: tail → False)
    (hescape : ∀ tail, c = '\\' → cs = '"' :: '"' :: '"' :: tail → False) :
    Takes (scanBlock (c :: cs)) chars rest ↔
      ∃ more, Takes (scanBlock cs) more rest ∧ c :: more = chars := by
  rw [scanBlock]
  · exact takes_map_iff (k := Rest.ofTail) fun _ => rfl
  · exact hclose
  · exact hescape

theorem takes_scanBlock_append_blank_iff {c : Char} {cs chars rest : List Char}
    (hclose : ∀ tail, c = '"' → cs = '"' :: '"' :: tail → False)
    (hescape : ∀ tail, c = '\\' → cs = '"' :: '"' :: '"' :: tail → False) (after : List Char) :
    Takes (scanBlock (c :: (cs ++ ' ' :: after))) chars rest ↔
      ∃ more, Takes (scanBlock (cs ++ ' ' :: after)) more rest ∧ c :: more = chars := by
  refine takes_scanBlock_iff (fun tail hc heq => ?_) fun tail hc heq => ?_
  · obtain ⟨tail', hcs, -⟩ := exists_of_append_blank ['"', '"'] (by decide) heq
    exact hclose tail' hc hcs
  · obtain ⟨tail', hcs, -⟩ := exists_of_append_blank ['"', '"', '"'] (by decide) heq
    exact hescape tail' hc hcs

theorem scanBlock_ends : EndsAtBlank scanBlock where
  stops := by
    intro cs chars rest h after
    induction cs using scanBlock.induct generalizing chars rest with
    | case1 => cases h
    | case2 cs =>
      obtain ⟨rfl, rfl⟩ := takes_scanBlock_close_iff.mp h
      exact takes_scanBlock_close_iff.mpr ⟨rfl, rfl⟩
    | case3 cs ih =>
      obtain ⟨more, hmore, rfl⟩ := takes_scanBlock_escape_iff.mp h
      exact takes_scanBlock_escape_iff.mpr ⟨more, ih hmore, rfl⟩
    | case4 c cs hclose hescape ih =>
      obtain ⟨more, hmore, rfl⟩ := (takes_scanBlock_iff hclose hescape).mp h
      exact (takes_scanBlock_append_blank_iff hclose hescape after).mpr ⟨more, ih hmore, rfl⟩
  within := by
    intro cs chars rest h
    induction cs using scanBlock.induct generalizing chars rest with
    | case1 => cases h
    | case2 cs =>
      obtain ⟨rfl, rfl⟩ := takes_scanBlock_close_iff.mp h
      exact ⟨cs, takes_scanBlock_close_iff.mpr ⟨rfl, rfl⟩, rfl⟩
    | case3 cs ih =>
      obtain ⟨more, hmore, rfl⟩ := takes_scanBlock_escape_iff.mp h
      obtain ⟨rest', hmore', rfl⟩ := ih hmore
      exact ⟨rest', takes_scanBlock_escape_iff.mpr ⟨more, hmore', rfl⟩, rfl⟩
    | case4 c cs hclose hescape ih =>
      obtain ⟨more, hmore, rfl⟩ := (takes_scanBlock_append_blank_iff hclose hescape _).mp h
      obtain ⟨rest', hmore', rfl⟩ := ih hmore
      exact ⟨rest', (takes_scanBlock_iff hclose hescape).mpr ⟨more, hmore', rfl⟩, rfl⟩

theorem takes_scanOpened_iff {c : Char} {cs chars rest : List Char} :
    Takes (scanOpened (c :: cs)) chars rest ↔
      if isLineEnd c then ∃ more, Takes (scanQuoted cs) more rest ∧ c :: more = chars
      else Takes (scanQuoted (c :: cs)) chars rest := by
  rw [scanOpened]
  split
  · exact takes_map_iff (k := Rest.ofTail) fun _ => rfl
  · exact Iff.rfl

theorem scanOpened_ends : EndsAtBlank scanOpened where
  stops := by
    intro cs chars rest h after
    cases cs with
    | nil => cases h
    | cons c cs =>
      rw [takes_scanOpened_iff] at h
      rw [List.cons_append, takes_scanOpened_iff]
      split at h
      · next hline =>
        obtain ⟨more, hmore, rfl⟩ := h
        rw [if_pos hline]
        exact ⟨more, scanQuoted_ends.stops hmore after, rfl⟩
      · next hline =>
        rw [if_neg hline]
        exact scanQuoted_ends.stops h after
  within := by
    intro cs chars rest h
    cases cs with
    | nil =>
      rw [List.nil_append, takes_scanOpened_iff, if_neg (by decide)] at h
      -- a string that nothing closes does not find its end in the brace
      have h : Takes (scanQuoted ([] ++ [' ', '\x7d'])) chars rest := h
      obtain ⟨_, h, -⟩ := scanQuoted_ends.within h
      exact absurd h not_takes_scanQuoted_nil
    | cons c cs =>
      rw [List.cons_append, takes_scanOpened_iff] at h
      simp only [takes_scanOpened_iff]
      split at h
      · next hline =>
        obtain ⟨more, hmore, rfl⟩ := h
        obtain ⟨rest', hmore', rfl⟩ := scanQuoted_ends.within hmore
        exact ⟨rest', by rw [if_pos hline]; exact ⟨more, hmore', rfl⟩, rfl⟩
      · next hline =>
        simp only [if_neg hline]
        exact scanQuoted_ends.within h

theorem takes_scanString_block_iff {cs rest : List Char} {token : Token} :
    Takes (scanString ('"' :: '"' :: cs)) token rest ↔
      ∃ raw, Takes (scanBlock cs) raw rest ∧ .string (BlockText.read raw) = token := by
  rw [scanString]
  exact takes_map_iff (f := fun raw => Token.string (BlockText.read raw))
    (k := fun r => r.ofTail.ofTail) fun _ => rfl

theorem takes_scanString_iff {cs rest : List Char} {token : Token}
    (hcs : ∀ tail, cs = '"' :: '"' :: tail → False) :
    Takes (scanString cs) token rest ↔
      ∃ chars, Takes (scanOpened cs) chars rest ∧ .string (String.ofList chars) = token := by
  rw [scanString]
  · exact takes_map_iff (f := fun chars => Token.string (String.ofList chars)) (k := id)
      fun _ => rfl
  · exact hcs

theorem scanString_ends : EndsAtBlank scanString where
  stops := by
    intro cs token rest h after
    by_cases hblock : ∃ tail, cs = '"' :: '"' :: tail
    · obtain ⟨cs, rfl⟩ := hblock
      obtain ⟨raw, hraw, rfl⟩ := takes_scanString_block_iff.mp h
      exact takes_scanString_block_iff.mpr ⟨raw, scanBlock_ends.stops hraw after, rfl⟩
    · have hne (tail : List Char) (heq : cs = '"' :: '"' :: tail) : False := hblock ⟨tail, heq⟩
      obtain ⟨chars, hchars, rfl⟩ := (takes_scanString_iff hne).mp h
      refine (takes_scanString_iff fun tail heq => ?_).mpr
        ⟨chars, scanOpened_ends.stops hchars after, rfl⟩
      obtain ⟨tail', hcs, -⟩ := exists_of_append_blank ['"', '"'] (by decide) heq
      exact hne tail' hcs
  within := by
    intro cs token rest h
    by_cases hblock : ∃ tail, cs = '"' :: '"' :: tail
    · obtain ⟨cs, rfl⟩ := hblock
      obtain ⟨raw, hraw, rfl⟩ := takes_scanString_block_iff.mp h
      obtain ⟨rest', hraw', rfl⟩ := scanBlock_ends.within hraw
      exact ⟨rest', takes_scanString_block_iff.mpr ⟨raw, hraw', rfl⟩, rfl⟩
    · have hne (tail : List Char) (heq : cs = '"' :: '"' :: tail) : False := hblock ⟨tail, heq⟩
      have hne' (tail : List Char) (heq : cs ++ [' ', '\x7d'] = '"' :: '"' :: tail) : False := by
        obtain ⟨tail', hcs, -⟩ := exists_of_append_blank ['"', '"'] (by decide) heq
        exact hne tail' hcs
      obtain ⟨chars, hchars, rfl⟩ := (takes_scanString_iff hne').mp h
      obtain ⟨rest', hchars', rfl⟩ := scanOpened_ends.within hchars
      exact ⟨rest', (takes_scanString_iff hne).mpr ⟨chars, hchars', rfl⟩, rfl⟩

end SchemaWeave.Sdl
