import SchemaWeave.Proofs.Sdl.Strings

/-!
# Tokens end at a blank

Names and numbers do not go on over a blank, strings end by themselves, and punctuators have no
length to choose. So `scanToken` takes the same token from a text whatever comes after a blank
behind it.
-/

namespace SchemaWeave.Sdl

open Text

/-! ## Numbers -/

theorem span_append_blank {p : Char → Bool} (hp : p ' ' = false) (cs after : List Char) :
    (Rest.span p (cs ++ ' ' :: after)).1 = (Rest.span p cs).1 ∧
      (Rest.span p (cs ++ ' ' :: after)).2.1 = (Rest.span p cs).2.1 ++ ' ' :: after := by
  simp only [Rest.span_fst, Rest.span_snd]
  induction cs with
  | nil => simp [hp]
  | cons c cs ih => cases hc : p c <;> simp [hc, ih]

theorem scanInteger_append_blank (first : Char) (cs after : List Char) :
    (scanInteger first (cs ++ ' ' :: after)).1 = (scanInteger first cs).1 ∧
      (scanInteger first (cs ++ ' ' :: after)).2.1
        = (scanInteger first cs).2.1 ++ ' ' :: after := by
  unfold scanInteger
  split
  · exact ⟨rfl, rfl⟩
  · exact span_append_blank (by decide) cs after

theorem scanSign_append_blank (cs after : List Char) :
    (scanSign (cs ++ ' ' :: after)).1 = (scanSign cs).1 ∧
      (scanSign (cs ++ ' ' :: after)).2.1 = (scanSign cs).2.1 ++ ' ' :: after := by
  cases cs with
  | nil => exact ⟨rfl, rfl⟩
  | cons c cs =>
    rw [List.cons_append, scanSign, scanSign]
    split <;> exact ⟨rfl, rfl⟩

theorem takes_scanFraction_point_iff {cs digits rest : List Char} :
    Takes (scanFraction ('.' :: cs)) digits rest ↔
      (Rest.span Char.isDigit cs).1 ≠ [] ∧ '.' :: (Rest.span Char.isDigit cs).1 = digits ∧
        (Rest.span Char.isDigit cs).2.1 = rest := by
  rw [scanFraction]
  dsimp only
  split <;> simp_all [Takes, Rest.ofTail]

theorem takes_scanFraction_iff {cs digits rest : List Char} (h : ∀ tail, cs ≠ '.' :: tail) :
    Takes (scanFraction cs) digits rest ↔ [] = digits ∧ cs = rest := by
  rw [scanFraction]
  · simp [Takes, Rest.all]
  · exact h

theorem scanFraction_stops : StopsAtBlank scanFraction := by
  intro cs digits rest after
  rcases exists_eq_cons_or '.' cs with ⟨cs, rfl⟩ | hne
  · obtain ⟨hdigits, hleft⟩ := span_append_blank (p := Char.isDigit) (by decide) cs after
    rw [List.cons_append]
    simp only [takes_scanFraction_point_iff, hdigits, hleft]
    constructor
    · rintro ⟨hne, rfl, rfl⟩
      exact ⟨_, ⟨hne, rfl, rfl⟩, rfl⟩
    · rintro ⟨_, ⟨hne, rfl, rfl⟩, rfl⟩
      exact ⟨hne, rfl, rfl⟩
  · simp only [takes_scanFraction_iff (ne_cons_append_blank (by decide) hne after),
      takes_scanFraction_iff hne]
    constructor
    · rintro ⟨rfl, rfl⟩
      exact ⟨cs, ⟨rfl, rfl⟩, rfl⟩
    · rintro ⟨_, ⟨rfl, rfl⟩, rfl⟩
      exact ⟨rfl, rfl⟩

theorem takes_scanExponent_iff {c : Char} {cs digits rest : List Char} :
    Takes (scanExponent (c :: cs)) digits rest ↔
      if c == 'e' || c == 'E' then
        (Rest.span Char.isDigit (scanSign cs).2.1).1 ≠ [] ∧
          c :: (scanSign cs).1 ++ (Rest.span Char.isDigit (scanSign cs).2.1).1 = digits ∧
          (Rest.span Char.isDigit (scanSign cs).2.1).2.1 = rest
      else [] = digits ∧ c :: cs = rest := by
  rw [scanExponent]
  split
  · dsimp only
    split <;> simp_all [Takes, Rest.ofTail, Rest.trans]
  · simp [Takes, Rest.all]

theorem scanExponent_stops : StopsAtBlank scanExponent := by
  intro cs digits rest after
  cases cs with
  | nil =>
    constructor
    · intro h
      cases h
      exact ⟨[], rfl, rfl⟩
    · rintro ⟨_, h, rfl⟩
      cases h
      rfl
  | cons c cs =>
    obtain ⟨hsign, hsigned⟩ := scanSign_append_blank cs after
    obtain ⟨hdigits, hleft⟩ :=
      span_append_blank (p := Char.isDigit) (by decide) (scanSign cs).2.1 after
    rw [List.cons_append, takes_scanExponent_iff, hsign, hsigned, hdigits, hleft]
    simp only [takes_scanExponent_iff]
    split
    · constructor
      · rintro ⟨hne, rfl, rfl⟩
        exact ⟨_, ⟨hne, rfl, rfl⟩, rfl⟩
      · rintro ⟨_, ⟨hne, rfl, rfl⟩, rfl⟩
        exact ⟨hne, rfl, rfl⟩
    · constructor
      · rintro ⟨rfl, rfl⟩
        exact ⟨_, ⟨rfl, rfl⟩, rfl⟩
      · rintro ⟨_, ⟨rfl, rfl⟩, rfl⟩
        exact ⟨rfl, rfl⟩

theorem takes_scanDecimal_iff {first : Char} {cs rest : List Char} {decimal : Decimal} :
    Takes (scanDecimal first cs) decimal rest ↔ ∃ fraction exponent mid,
      Takes (scanFraction (scanInteger first cs).2.1) fraction mid ∧
        Takes (scanExponent mid) exponent rest ∧
        ⟨first :: (scanInteger first cs).1, fraction, exponent⟩ = decimal := by
  rw [scanDecimal]
  generalize scanInteger first cs = whole
  obtain ⟨whole, left⟩ := whole
  dsimp only
  constructor
  · intro h
    obtain ⟨_, h⟩ := h.exists
    obtain ⟨⟨fraction, mid⟩, hfraction, h⟩ := Option.bind_eq_some_iff.mp h
    obtain ⟨⟨exponent, rest'⟩, hexponent, heq⟩ := Option.bind_eq_some_iff.mp h
    cases heq
    exact ⟨fraction, exponent, mid.1, .of_eq_some hfraction, .of_eq_some hexponent, rfl⟩
  · rintro ⟨fraction, exponent, mid, hfraction, hexponent, rfl⟩
    obtain ⟨_, hfraction⟩ := hfraction.exists
    obtain ⟨_, hexponent⟩ := hexponent.exists
    simp only [Option.bind_eq_bind, hfraction, Option.bind_some, hexponent]
    rfl

theorem scanDecimal_stops (first : Char) : StopsAtBlank (scanDecimal first) := by
  intro cs decimal rest after
  obtain ⟨hwhole, hleft⟩ := scanInteger_append_blank first cs after
  rw [takes_scanDecimal_iff, hwhole, hleft]
  simp only [takes_scanDecimal_iff]
  constructor
  · rintro ⟨fraction, exponent, mid, hfraction, hexponent, rfl⟩
    obtain ⟨mid', hfraction', rfl⟩ := (scanFraction_stops after).mp hfraction
    obtain ⟨rest', hexponent', rfl⟩ := (scanExponent_stops after).mp hexponent
    exact ⟨rest', ⟨fraction, exponent, mid', hfraction', hexponent', rfl⟩, rfl⟩
  · rintro ⟨rest', ⟨fraction, exponent, mid, hfraction, hexponent, rfl⟩, rfl⟩
    exact ⟨fraction, exponent, _, (scanFraction_stops after).mpr ⟨mid, hfraction, rfl⟩,
      (scanExponent_stops after).mpr ⟨rest', hexponent, rfl⟩, rfl⟩

theorem takes_scanNumber_iff {sign : List Char} {first : Char} {cs rest : List Char}
    {token : Token} : Takes (scanNumber sign first cs) token rest ↔ ∃ decimal,
      Takes (scanDecimal first cs) decimal rest ∧ endsNumber rest = true ∧
        (if decimal.isInteger then .int (String.ofList (sign ++ decimal.digits))
          else .float (String.ofList (sign ++ decimal.digits))) = token := by
  rw [scanNumber]
  cases hdecimal : scanDecimal first cs with
  | none => simp [Takes]
  | some p =>
    obtain ⟨decimal, rest'⟩ := p
    simp only [Option.bind_eq_bind, Option.bind_some]
    split
    · next hend =>
      constructor
      · intro h
        cases h
        exact ⟨decimal, rfl, hend, rfl⟩
      · rintro ⟨_, heq, -, rfl⟩
        cases heq
        rfl
    · next hend =>
      refine ⟨fun h => absurd h not_takes_none, ?_⟩
      rintro ⟨_, heq, hend', -⟩
      cases heq
      exact absurd hend' hend

theorem endsNumber_append_blank (cs after : List Char) :
    endsNumber (cs ++ ' ' :: after) = endsNumber cs := by
  cases cs <;> rfl

theorem scanNumber_stops (sign : List Char) (first : Char) :
    StopsAtBlank (scanNumber sign first) := by
  intro cs token rest after
  simp only [takes_scanNumber_iff]
  constructor
  · rintro ⟨decimal, hdecimal, hend, rfl⟩
    obtain ⟨rest', hdecimal', rfl⟩ := (scanDecimal_stops first after).mp hdecimal
    rw [endsNumber_append_blank] at hend
    exact ⟨rest', ⟨decimal, hdecimal', hend, rfl⟩, rfl⟩
  · rintro ⟨rest', ⟨decimal, hdecimal, hend, rfl⟩, rfl⟩
    exact ⟨decimal, (scanDecimal_stops first after).mpr ⟨rest', hdecimal, rfl⟩,
      by rw [endsNumber_append_blank, hend], rfl⟩

/-! ## Tokens -/

theorem scanName_append_blank (c : Char) (hc : Name.isStart c = true) (cs after : List Char) :
    (scanName c hc (cs ++ ' ' :: after)).1 = (scanName c hc cs).1 ∧
      (scanName c hc (cs ++ ' ' :: after)).2.1 = (scanName c hc cs).2.1 ++ ' ' :: after := by
  obtain ⟨hinner, hleft⟩ := span_append_blank (p := Name.isInner) (by decide) cs after
  rw [Rest.span_fst, Rest.span_fst] at hinner
  refine ⟨?_, hleft⟩
  unfold scanName
  simp only [hinner]

theorem EndsAtBlank.ite {α : Type} {b : Prop} [Decidable b]
    {f g : (cs : List Char) → Option (α × Rest cs)} (hf : b → EndsAtBlank f)
    (hg : ¬b → EndsAtBlank g) : EndsAtBlank fun cs => if b then f cs else g cs := by
  by_cases hb : b
  · simpa only [if_pos hb] using hf hb
  · simpa only [if_neg hb] using hg hb

/-- The number after a minus. -/
def scanNegative : (cs : List Char) → Option (Token × Rest cs)
  | [] => none
  | d :: cs =>
    if d.isDigit then (scanNumber ['-'] d cs).map fun (token, rest) => (token, rest.ofTail)
    else none

theorem takes_scanNegative_iff {d : Char} {cs rest : List Char} {token : Token} :
    Takes (scanNegative (d :: cs)) token rest ↔
      d.isDigit = true ∧ Takes (scanNumber ['-'] d cs) token rest := by
  rw [scanNegative]
  split
  · next hd =>
    refine (takes_map_iff (f := id) (k := Rest.ofTail) fun _ => rfl).trans ?_
    simp [hd]
  · next hd => simp [hd, not_takes_none]

theorem scanNegative_stops : StopsAtBlank scanNegative := by
  intro cs token rest after
  cases cs with
  | nil =>
    refine iff_of_false not_takes_none ?_
    rintro ⟨_, h, -⟩
    exact not_takes_none h
  | cons d cs =>
    rw [List.cons_append]
    simp only [takes_scanNegative_iff, scanNumber_stops _ d after, and_assoc, exists_and_left]

/-- The other two points of a spread. -/
def scanPoints : (cs : List Char) → Option (Token × Rest cs)
  | '.' :: '.' :: cs => some (.punctuator .spread, (Rest.all cs).ofTail.ofTail)
  | _ => none

theorem takes_scanPoints_iff {cs rest : List Char} {token : Token} :
    Takes (scanPoints cs) token rest ↔ cs = '.' :: '.' :: rest ∧ .punctuator .spread = token := by
  unfold scanPoints
  split
  · simp [Takes, Rest.all, Rest.ofTail, and_comm]
  · next hne =>
    refine ⟨fun h => absurd h not_takes_none, ?_⟩
    rintro ⟨rfl, -⟩
    exact (hne _ rfl).elim

theorem scanPoints_stops : StopsAtBlank scanPoints := by
  intro cs token rest after
  simp only [takes_scanPoints_iff]
  constructor
  · rintro ⟨heq, rfl⟩
    obtain ⟨rest', hcs, hrest⟩ := exists_of_append_blank ['.', '.'] (by decide) heq
    exact ⟨rest', ⟨hcs, rfl⟩, hrest⟩
  · rintro ⟨rest', ⟨rfl, rfl⟩, rfl⟩
    exact ⟨rfl, rfl⟩

theorem takes_punctuator_iff {c : Char} {cs rest : List Char} {token : Token} :
    Takes ((punctuator? c).map fun p => (Token.punctuator p, Rest.all cs)) token rest ↔
      (punctuator? c).map .punctuator = some token ∧ cs = rest := by
  cases punctuator? c <;> simp [Takes, Rest.all]

theorem scanToken_of_not_isStart {c : Char} (hc : ¬ Name.isStart c = true) :
    scanToken c = fun cs => if c == '"' then scanString cs
      else if c.isDigit then scanNumber [] c cs
      else if c == '-' then scanNegative cs
      else if c == '.' then scanPoints cs
      else (punctuator? c).map fun p => (.punctuator p, .all cs) := by
  funext cs
  unfold scanToken
  rw [dif_neg hc]
  rfl

theorem takes_scanToken_of_isStart_iff {c : Char} (hc : Name.isStart c = true)
    {cs rest : List Char} {token : Token} :
    Takes (scanToken c cs) token rest ↔
      .name (scanName c hc cs).1 = token ∧ (scanName c hc cs).2.1 = rest := by
  unfold scanToken
  rw [dif_pos hc]
  simp [Takes]

theorem scanToken_stops_of_isStart {c : Char} (hc : Name.isStart c = true) :
    StopsAtBlank (scanToken c) := by
  intro cs token rest after
  obtain ⟨hname, hleft⟩ := scanName_append_blank c hc cs after
  simp only [takes_scanToken_of_isStart_iff hc, hname, hleft]
  constructor
  · rintro ⟨rfl, rfl⟩
    exact ⟨_, ⟨rfl, rfl⟩, rfl⟩
  · rintro ⟨_, ⟨rfl, rfl⟩, rfl⟩
    exact ⟨rfl, rfl⟩

theorem punctuator_stops (c : Char) : StopsAtBlank fun cs =>
    (punctuator? c).map fun p => (Token.punctuator p, Rest.all cs) := by
  intro cs token rest after
  simp only [takes_punctuator_iff]
  constructor
  · rintro ⟨hp, rfl⟩
    exact ⟨cs, ⟨hp, rfl⟩, rfl⟩
  · rintro ⟨_, ⟨hp, rfl⟩, rfl⟩
    exact ⟨hp, rfl⟩

/-- Only a string goes on over a blank. -/
theorem scanToken_ends (c : Char) : EndsAtBlank (scanToken c) := by
  by_cases hc : Name.isStart c = true
  · exact (scanToken_stops_of_isStart hc).ends
  · rw [scanToken_of_not_isStart hc]
    refine .ite (fun _ => scanString_ends) fun _ => ?_
    refine .ite (fun _ => (scanNumber_stops [] c).ends) fun _ => ?_
    refine .ite (fun _ => scanNegative_stops.ends) fun _ => ?_
    exact .ite (fun _ => scanPoints_stops.ends) fun _ => (punctuator_stops c).ends

end SchemaWeave.Sdl
