import SchemaWeave.Introspection.Conversion
import SchemaWeave.Proofs.Sdl.Literal
import SchemaWeave.Proofs.Sdl.Spelling

/-!
# Default values as texts

A default value is written into a document without a look at it, and the document is read as a
whole. So a text is taken for a value when it is one, but also when it begins with one and the
tokens after it close the document in another way: with directives, with further fields, or with
a closing brace and further definitions.
-/

namespace SchemaWeave

open Sdl Sdl.Grammar Sdl.Rule

namespace Sdl

/-! ## An input object type with one default value -/

variable {ts : List Lexeme}

theorem typeRef_named {d : Nat} {l : Lexeme} {n : Name} (hl : l.token = .name n)
    (hts : starts (isPunctuator .bang) ts = false) : typeRef d (l :: ts) = some (.named n, ts) := by
  rw [typeRef.eq_def, nextIs_ite_of_not_starts (by simp [isPunctuator, hl]),
    bind_of_eq_some (name_eq_some_iff.mpr ⟨l, hl, rfl⟩),
    bind_of_eq_some (optionalIf_of_not_starts hts)]
  rfl

theorem inputValue_default {n type : Name} {l colon word equals : Lexeme} (hl : l.token = .name n)
    (hcolon : colon.token = .punctuator .colon) (hword : word.token = .name type)
    (hequals : equals.token = .punctuator .equals) (ts : List Lexeme) :
    inputValue (l :: colon :: word :: equals :: ts) = (do
      let v ← value false nestingLimit
      let applied ← constDirectives
      return ⟨n, none, .named type, some v, applied⟩ : Rule InputValue) ts := by
  rw [inputValue, description, optionalIf_bind, starts_cons, hl, if_neg (by simp [isString]),
    bind_of_eq_some (name_eq_some_iff.mpr ⟨l, hl, rfl⟩),
    bind_of_eq_some (punctuator_cons hcolon _),
    bind_of_eq_some (typeRef_named hword (by simp [isPunctuator, hequals])), optionalIf_bind,
    starts_cons, if_pos (by simp [isPunctuator, hequals]), bind_assoc,
    bind_of_eq_some (punctuator_cons hequals _)]

theorem inputFields_of_openBrace {l : Lexeme} (hl : l.token = .punctuator .openBrace)
    (ts : List Lexeme) :
    inputFields (l :: ts) = (do
      let first ← inputValue
      let more ← repeatWhile startsElement inputValue
      punctuator .closeBrace
      return first :: more : Rule (List InputValue)) ts := by
  rw [inputFields, optionalIf_bind, starts_cons, if_pos (by simp [isPunctuator, hl]), enclosed]
  simp only [repeatSome, bind_assoc, pure_bind, Option.getD_some]
  rw [bind_of_eq_some (punctuator_cons hl _)]

theorem definition_input {h : Name.isSpelling "input".toList = true} {b : Bool}
    (ts : List Lexeme) :
    definition (⟨.name ⟨"input", h⟩, b⟩ :: ts) = (do
      let n ← name
      let applied ← constDirectives
      let fields ← inputFields
      return .type ⟨n, none, applied, .inputObject fields⟩ : Rule Definition) ts := by
  have hkind : nextTypeKind (⟨.name ⟨"input", h⟩, b⟩ :: ts) =
      some (some .inputObject, ⟨.name ⟨"input", h⟩, b⟩ :: ts) := rfl
  have hkeyword : keyword (keywordOf .inputObject) (⟨.name ⟨"input", h⟩, b⟩ :: ts) =
      some ((), ts) := rfl
  rw [definition, nextIs_ite_of_not_starts rfl, nextIs_ite_of_not_starts rfl,
    nextIs_ite_of_not_starts rfl, nextIs_ite_of_not_starts rfl, nextIs_ite_of_not_starts rfl,
    describedAfter, bind_of_eq_some hkind]
  simp only [typeAfter.eq_def, bind_assoc, pure_bind]
  rw [bind_of_eq_some hkeyword]

end Sdl

namespace Introspection

/-! ## The document around a default value -/

/-- The tokens in front of a default value, with the name of the type that it is given. -/
def opening (type : Name) : List Lexeme :=
  [.name ⟨"input", by decide⟩, .name ⟨"Default", by decide⟩, .punctuator .openBrace,
    .name ⟨"value", by decide⟩, .punctuator .colon, .name type,
    .punctuator .equals].map fun t => ⟨t, false⟩

/-- The rule for what follows a default value: directives, further fields, the end of the type and
further definitions. -/
def closing : Sdl.Rule (List Directive × List InputValue × List Definition) := do
  let applied ← constDirectives
  let more ← repeatWhile startsElement inputValue
  punctuator .closeBrace
  let definitions ← repeatWhile (fun _ => true) definition
  return (applied, more, definitions)

theorem definitions_opening (type : Name) (ts : List Lexeme) :
    definitions (opening type ++ ts) = (do
      let v ← value false nestingLimit
      let (applied, more, definitions) ← closing
      return .type ⟨⟨"Default", by decide⟩, none, [],
        .inputObject (⟨⟨"value", by decide⟩, none, .named type, some v, applied⟩ :: more)⟩ ::
          definitions : Sdl.Rule (List Definition)) ts := by
  simp only [opening, List.map_cons, List.map_nil, List.cons_append, List.nil_append]
  -- token by token up to the equals sign
  rw [definitions, repeatSome, bind_of_eq (definition_input _), bind_assoc,
    bind_of_eq_some (name_eq_some_iff.mpr ⟨_, rfl, rfl⟩), bind_assoc, constDirectives, directives,
    bind_of_eq_some (repeatWhile_of_stop rfl), bind_assoc,
    bind_of_eq (inputFields_of_openBrace rfl _), bind_assoc,
    bind_of_eq (inputValue_default rfl rfl rfl rfl ts)]
  simp only [closing, constDirectives, directives, bind_assoc, pure_bind]

theorem spells_opening :
    Spells true false "input Default \x7b value: Int =".toList (opening ⟨"Int", by decide⟩)
      (.between false) :=
  .token rfl (by decide) <| .ignored rfl <| .token rfl (by decide) <| .ignored rfl <|
    .token rfl (by decide) <| .ignored rfl <| .token rfl (by decide) <| .token rfl (by decide) <|
    .ignored rfl <| .token rfl (by decide) <| .ignored rfl <| .token rfl (by decide) .done

/-- Whether tokens after a default value close its document. -/
def Closes (ts : List Lexeme) : Prop := ∃ p, closing ts = some (p, [])

theorem closes_closeBrace {l : Lexeme} (h : l.token = .punctuator .closeBrace) : Closes [l] := by
  have hstop (p : Token → Bool) (hp : p (.punctuator .closeBrace) = false) :
      starts p [l] = false := by
    rw [starts_cons, h, hp]
  refine ⟨([], [], []), ?_⟩
  rw [closing, constDirectives, directives, bind_of_eq_some (repeatWhile_of_stop (hstop _ rfl)),
    bind_of_eq_some (repeatWhile_of_stop (hstop _ rfl)), bind_of_eq_some (punctuator_cons h []),
    bind_of_eq_some (repeatWhile_of_stop rfl)]
  rfl

theorem not_closes_nil : ¬ Closes [] := by
  rintro ⟨p, h⟩
  rw [closing, constDirectives, directives, bind_of_eq_some (repeatWhile_of_stop rfl),
    bind_of_eq_some (repeatWhile_of_stop rfl)] at h
  cases h

theorem firstDefault_ofTokens?_opening {type : Name} {ts : List Lexeme} {v : Value} :
    ((Document.ofTokens? (opening type ++ ts)).bind fun d =>
        d.definitions.findSome? firstDefault) = some v ↔
      ∃ ls rest, ts = ls ++ rest ∧ Literal true v ls ∧ v.depth ≤ nestingLimit ∧ Closes rest := by
  rw [Document.ofTokens?, definitions_opening]
  constructor
  · intro h
    obtain ⟨d, hd, hv⟩ := Option.bind_eq_some_iff.mp h
    split at hd
    · next ds hds =>
      obtain ⟨v', mid, hvalue, hafter⟩ := bind_eq_some_iff.mp hds
      obtain ⟨p, rest, hclosing, heq⟩ := bind_eq_some_iff.mp hafter
      cases heq
      cases hd
      obtain rfl : v' = v := Option.some.inj hv
      obtain ⟨ls, rfl, hliteral, hdepth⟩ := value_sound hvalue
      exact ⟨ls, mid, rfl, hliteral, hdepth, p, hclosing⟩
    · cases hd
  · rintro ⟨ls, rest, rfl, hliteral, hdepth, ⟨applied, more, definitions⟩, hcloses⟩
    rw [bind_of_eq_some (value_complete hliteral hdepth), bind_of_eq_some hcloses]
    rfl

theorem scan_defaultDocument (raw : String) :
    scan false (defaultDocument raw).toList =
      (scan false (raw.toList ++ [' ', '\x7d'])).map (opening ⟨"Int", by decide⟩ ++ ·) := by
  have htext : (defaultDocument raw).toList =
      "input Default \x7b value: Int =".toList ++ ' ' :: (raw.toList ++ [' ', '\x7d']) := by
    have hfront : "input Default \x7b value: Int = ".toList =
        "input Default \x7b value: Int =".toList ++ [' '] := rfl
    unfold defaultDocument
    rw [String.toList_append, String.toList_append, hfront, List.append_assoc, List.append_assoc]
    rfl
  rw [htext, spells_opening.scan_append_blank fun h => by cases h]
  rfl

/-- A text is read as a value when its tokens begin with a literal and what follows closes the
document, together with the brace behind the text. -/
theorem parseDefault_eq_some_iff {raw : String} {v : Value} :
    parseDefault raw = some v ↔ ∃ ls more e, Spells true false raw.toList (ls ++ more) e ∧
      Literal true v ls ∧ v.depth ≤ nestingLimit ∧ Closes (more ++ e.brace) := by
  rw [parseDefault, Document.ofText?, scan_defaultDocument]
  constructor
  · intro h
    cases hscan : scan false (raw.toList ++ [' ', '\x7d']) with
    | none => simp [hscan] at h
    | some ts =>
      rw [hscan, Option.map_some, Option.bind_some, firstDefault_ofTokens?_opening] at h
      obtain ⟨ls, rest, rfl, hliteral, hdepth, hcloses⟩ := h
      obtain ⟨all, e, hspells, heq⟩ := Spells.of_scan hscan
      -- the literal does not take the brace, since something has to close the document
      rcases List.append_eq_append_iff.mp heq with ⟨more, rfl, rfl⟩ | ⟨taken, rfl, hbrace⟩
      · exact ⟨ls, more, e, hspells, hliteral, hdepth, hcloses⟩
      · obtain rfl : taken = [] := by
          cases taken with
          | nil => rfl
          | cons l taken =>
            cases e with
            | inComment => cases hbrace
            | between =>
              obtain ⟨-, rfl⟩ := List.append_eq_nil_iff.mp (List.cons.inj hbrace).2.symm
              exact absurd hcloses not_closes_nil
        rw [List.append_nil] at hliteral
        rw [List.nil_append] at hbrace
        refine ⟨all, [], e, by rwa [List.append_nil], hliteral, hdepth, ?_⟩
        rwa [List.nil_append, hbrace]
  · rintro ⟨ls, more, e, hspells, hliteral, hdepth, hcloses⟩
    rw [hspells.scan_append_blank fun _ => by simp [isLineEnd], e.scanAfter_brace, Option.map_some,
      Option.map_some, Option.bind_some, firstDefault_ofTokens?_opening]
    exact ⟨ls, more ++ e.brace, List.append_assoc .., hliteral, hdepth, hcloses⟩

/-! ## Texts that are one value -/

/-- Whether a text is one constant value, with nothing around it but what may stand between tokens
and ends with the text. -/
def IsLiteral (lenient : Bool) (raw : String) (v : Value) : Prop :=
  ∃ ls afterComma, Spells lenient false raw.toList ls (.between afterComma) ∧ Literal lenient v ls

/-- Whether the parser reads a text as a value exactly where the grammar has it. It does not for
the forms that only the lenient grammar has and for values that are nested too deeply. -/
def FollowsGrammar (raw : String) : Prop :=
  ∀ v, IsLiteral true raw v ∧ v.depth ≤ nestingLimit ↔ IsLiteral false raw v

/-- Whether a text goes on after a value in a way that closes the document. -/
def RunsOn (raw : String) (v : Value) : Prop :=
  ∃ ls more e, Spells true false raw.toList (ls ++ more) e ∧ more ≠ [] ∧ Literal true v ls ∧
    v.depth ≤ nestingLimit ∧ Closes (more ++ e.brace)

theorem IsLiteral.toLenient {lenient : Bool} {raw : String} {v : Value}
    (h : IsLiteral lenient raw v) : IsLiteral true raw v := by
  obtain ⟨ls, afterComma, hspells, hliteral⟩ := h
  exact ⟨ls, afterComma, hspells.toLenient, hliteral.toLenient⟩

theorem IsLiteral.not_runsOn {lenient : Bool} {raw : String} {v w : Value}
    (h : IsLiteral lenient raw v) : ¬ RunsOn raw w := by
  rintro ⟨ls, more, e, hspells, hmore, hliteral, -⟩
  obtain ⟨ls', _, hspells', hliteral'⟩ := h.toLenient
  have heq : ls' ++ [] = ls ++ more := (List.append_nil ls').trans (hspells'.unique hspells)
  obtain ⟨-, rfl⟩ := hliteral'.unique hliteral heq
  exact hmore (List.append_cancel_left heq).symm

theorem parseDefault_eq_some_iff_isLiteral_or_runsOn {raw : String} {v : Value} :
    parseDefault raw = some v ↔
      (IsLiteral true raw v ∧ v.depth ≤ nestingLimit) ∨ RunsOn raw v := by
  rw [parseDefault_eq_some_iff]
  constructor
  · rintro ⟨ls, more, e, hspells, hliteral, hdepth, hcloses⟩
    by_cases hmore : more = []
    · subst hmore
      rw [List.append_nil] at hspells
      cases e with
      | between afterComma => exact .inl ⟨⟨ls, afterComma, hspells, hliteral⟩, hdepth⟩
      | inComment => exact absurd hcloses not_closes_nil
    · exact .inr ⟨ls, more, e, hspells, hmore, hliteral, hdepth, hcloses⟩
  · rintro (⟨⟨ls, afterComma, hspells, hliteral⟩, hdepth⟩ | ⟨ls, more, e, hspells, -, h⟩)
    · refine ⟨ls, [], .between afterComma, ?_, hliteral, hdepth, closes_closeBrace rfl⟩
      rwa [List.append_nil]
    · exact ⟨ls, more, e, hspells, h⟩

/-! ## Input values -/

/-- Whether every input value with a text for its default value is converted exactly when the text
is one value, and has that value for its default. Its type and its name are not in question. -/
def ConvertsLiterals (raw : String) : Prop :=
  ∀ (owner : String) (v : ListedInputValue) (name : Name) (type : TypeRef),
    v.default = some raw → convertName v.name = .ok name → convertReference v.type = .ok type →
    ∀ i, convertInputValue owner v = .ok i ↔ ∃ value, IsLiteral false raw value ∧
      i = ⟨name, convertDescription v.description, type, some value, []⟩

theorem convertInputValue_eq_ok_iff {owner raw : String} {v : ListedInputValue} {name : Name}
    {type : TypeRef} (hdefault : v.default = some raw) (hname : convertName v.name = .ok name)
    (htype : convertReference v.type = .ok type) {i : InputValue} :
    convertInputValue owner v = .ok i ↔ ∃ value, parseDefault raw = some value ∧
      i = ⟨name, convertDescription v.description, type, some value, []⟩ := by
  rw [convertInputValue, htype, convertDefault, hdefault, hname]
  cases hvalue : parseDefault raw with
  | none => simp [hvalue, bind, Except.bind]
  | some value => simp [hvalue, bind, Except.bind, pure, Except.pure, eq_comm]

theorem convertsLiterals_iff_parseDefault (raw : String) :
    ConvertsLiterals raw ↔ ∀ v, parseDefault raw = some v ↔ IsLiteral false raw v := by
  constructor
  · intro h v
    have hname : convertName "length" = .ok ⟨"length", by decide⟩ := rfl
    have htype : convertReference (.layer .scalar (some "Float") none) =
        .ok (.named ⟨"Float", by decide⟩) := rfl
    have hconvert := h "" ⟨"length", none, _, some raw⟩ _ _ rfl hname htype
      ⟨⟨"length", by decide⟩, none, .named ⟨"Float", by decide⟩, some v, []⟩
    rw [convertInputValue_eq_ok_iff rfl hname htype] at hconvert
    simpa [convertDescription] using hconvert
  · intro h owner v name type hdefault hname htype i
    rw [convertInputValue_eq_ok_iff hdefault hname htype]
    simp only [h]

/-- A text is a default value exactly when it is one constant value, provided that the parser
follows the grammar in it and that it does not run on. -/
theorem convertsLiterals_iff (raw : String) :
    ConvertsLiterals raw ↔ FollowsGrammar raw ∧ ∀ v, ¬ RunsOn raw v := by
  rw [convertsLiterals_iff_parseDefault]
  constructor
  · intro h
    have hruns (v : Value) : ¬ RunsOn raw v := fun hruns =>
      ((h v).mp (parseDefault_eq_some_iff_isLiteral_or_runsOn.mpr (.inr hruns))).not_runsOn hruns
    refine ⟨fun v => ?_, hruns⟩
    rw [← h v, parseDefault_eq_some_iff_isLiteral_or_runsOn, or_iff_left (hruns v)]
  · rintro ⟨hgrammar, hruns⟩ v
    rw [parseDefault_eq_some_iff_isLiteral_or_runsOn, or_iff_left (hruns v), hgrammar v]

/-- A number and a second field after it. -/
def secondField : String := "1 other: Int"

theorem not_isLiteral_secondField (lenient : Bool) (v : Value) :
    ¬ IsLiteral lenient secondField v := by
  rintro ⟨ls, _, hspells, hliteral⟩
  have htokens : Spells true false "1 other: Int".toList
      [⟨.int "1", false⟩, ⟨.name ⟨"other", by decide⟩, false⟩, ⟨.punctuator .colon, false⟩,
        ⟨.name ⟨"Int", by decide⟩, false⟩] (.between false) :=
    .token rfl (by decide) <| .ignored rfl <| .token rfl (by decide) <| .token rfl (by decide) <|
      .ignored rfl <| .token rfl (by decide) .done
  have heq := hspells.unique htokens
  cases hliteral with
  | scalar => cases heq
  | list h | object h =>
    obtain ⟨rfl, -⟩ := List.cons.inj heq
    cases h

/-- The parser has no value in the text, as the grammar, and yet the number is taken for it. -/
theorem not_convertsLiterals_secondField :
    FollowsGrammar secondField ∧ ¬ ConvertsLiterals secondField := by
  refine ⟨fun v => ?_, fun h => ?_⟩
  · simp only [not_isLiteral_secondField, false_and]
  · have hparse : parseDefault secondField = some (.int "1") := by decide +kernel
    have hliteral := (convertsLiterals_iff_parseDefault secondField).mp h (.int "1")
    exact not_isLiteral_secondField false _ (hliteral.mp hparse)

/-- A comment may hide the brace that closes the document. -/
example : parseDefault "1 \x7d type Tide #" = some (.int "1") := by decide +kernel

end Introspection

end SchemaWeave
