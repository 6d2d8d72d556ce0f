import SchemaWeave.Json.Reader
import SchemaWeave.Proofs.Text.Takes

/-!
# JSON values read back

Every value without numbers has a text that is read as the value. The text has no blanks. In a
string, the quote, the backslash and the control characters are escaped; a string that has no text
is written as the first half of a surrogate pair.
-/

namespace SchemaWeave.Json

open Text

/-! ## Writing -/

def hexDigit (n : Nat) : Char := if n < 10 then Char.ofNat (48 + n) else Char.ofNat (87 + n)

/-- A character as it stands between quotes. -/
def writeChar (c : Char) : List Char :=
  if c = '"' ∨ c = '\\' then ['\\', c]
  else if c.toNat < 0x20 then
    ['\\', 'u', '0', '0', hexDigit (c.toNat / 16), hexDigit (c.toNat % 16)]
  else [c]

/-- A string after its opening quote. -/
def writeString : Option String → List Char
  | some s => s.toList.flatMap writeChar ++ ['"']
  | none => ['\\', 'u', 'd', '8', '0', '0', '"']

mutual

def write : Json → List Char
  | null => ['n', 'u', 'l', 'l']
  | boolean true => ['t', 'r', 'u', 'e']
  | boolean false => ['f', 'a', 'l', 's', 'e']
  | number digits => digits.toList
  | string text => '"' :: writeString text
  | array [] => ['[', ']']
  | array (v :: vs) => '[' :: (write v ++ writeItems vs)
  | object [] => ['\x7b', '\x7d']
  | object ((key, v) :: entries) =>
    '\x7b' :: '"' :: (writeString key ++ ':' :: (write v ++ writeEntries entries))

/-- The items of an array after the first, with the closing bracket. -/
def writeItems : List Json → List Char
  | [] => [']']
  | v :: vs => ',' :: (write v ++ writeItems vs)

/-- The entries of an object after the first, with the closing brace. -/
def writeEntries : List (Option String × Json) → List Char
  | [] => ['\x7d']
  | (key, v) :: entries =>
    ',' :: '"' :: (writeString key ++ ':' :: (write v ++ writeEntries entries))

end

mutual

/-- Whether no number occurs in a value. -/
def numberless : Json → Bool
  | number _ => false
  | array items => itemsNumberless items
  | object entries => entriesNumberless entries
  | _ => true

def itemsNumberless : List Json → Bool
  | [] => true
  | v :: vs => numberless v && itemsNumberless vs

def entriesNumberless : List (Option String × Json) → Bool
  | [] => true
  | (_, v) :: entries => numberless v && entriesNumberless entries

end

@[simp] theorem numberless_text (s : String) : (text s).numberless = true := by
  rw [text, numberless]
  all_goals simp

@[simp] theorem numberless_boolean (b : Bool) : (boolean b).numberless = true := by
  rw [numberless]
  all_goals simp

@[simp] theorem numberless_array (items : List Json) :
    (array items).numberless = items.all numberless := by
  rw [numberless]
  induction items with
  | nil => rfl
  | cons v vs ih => rw [itemsNumberless, ih, List.all_cons]

@[simp] theorem numberless_record (entries : List (String × Json)) :
    (record entries).numberless = entries.all fun e => e.2.numberless := by
  rw [record, numberless]
  induction entries with
  | nil => rfl
  | cons e entries ih => rw [List.map_cons, entriesNumberless, ih, List.all_cons]

/-! ## Reading -/

/-! ### Strings -/

theorem readEscape_hexDigit {n : Nat} (hn : n < 0x20) (rest : List Char) :
    Takes (readEscape ('u' :: '0' :: '0' :: hexDigit (n / 16) :: hexDigit (n % 16) :: rest))
      (some (Char.ofNat n)) rest := by
  have hvalue : ∀ n < 0x20, hexValue? ['0', '0', hexDigit (n / 16), hexDigit (n % 16)] = some n := by
    decide
  have hcode : ∀ n < 0x20, charOfCode? n = some (Char.ofNat n) ∧ isHighSurrogate n = false := by
    decide
  obtain ⟨hchar, hhigh⟩ := hcode n hn
  simp only [readEscape, scanFourHex, hvalue n hn, Option.map_some, Option.bind_eq_bind,
    Option.bind_some, hhigh, hchar]
  split <;> rfl

theorem readChars_escape {cs mid after : List Char} {char : Option Char}
    {chars : List (Option Char)} (hchar : Takes (readEscape cs) char mid)
    (hchars : Takes (readChars mid) chars after) :
    Takes (readChars ('\\' :: cs)) (char :: chars) after := by
  obtain ⟨_, hchar⟩ := hchar.exists
  obtain ⟨_, hchars⟩ := hchars.exists
  rw [readChars, hchar]
  simp only [hchars]
  rfl

theorem readChars_writeChar (c : Char) {rest after : List Char} {cs : List (Option Char)}
    (h : Takes (readChars rest) cs after) :
    Takes (readChars (writeChar c ++ rest)) (some c :: cs) after := by
  by_cases hmark : c = '"' ∨ c = '\\'
  · rw [writeChar, if_pos hmark]
    refine readChars_escape ?_ h
    rcases hmark with rfl | rfl <;> rfl
  · rw [writeChar, if_neg hmark]
    by_cases hcontrol : c.toNat < 0x20
    · rw [if_pos hcontrol]
      have hescape := readEscape_hexDigit hcontrol rest
      rw [Char.ofNat_toNat] at hescape
      exact readChars_escape hescape h
    · obtain ⟨_, hrest⟩ := h.exists
      rw [if_neg hcontrol, List.singleton_append, readChars, if_neg hcontrol, hrest]
      · rfl
      · exact fun hc => hmark (.inl hc)
      · exact fun hc => hmark (.inr hc)

theorem readChars_flatMap (l rest : List Char) :
    Takes (readChars (l.flatMap writeChar ++ '"' :: rest)) (l.map some) rest := by
  induction l with
  | nil => rw [List.flatMap_nil, List.nil_append, readChars]; rfl
  | cons c l ih =>
    rw [List.flatMap_cons, List.append_assoc]
    exact readChars_writeChar c ih

theorem readString_writeString (text : Option String) (rest : List Char) :
    Takes (readString (writeString text ++ rest)) text rest := by
  cases text with
  | some s =>
    obtain ⟨_, h⟩ := (readChars_flatMap s.toList rest).exists
    have hall : (s.toList.map some).mapM id = some s.toList := by
      induction s.toList with
      | nil => rfl
      | cons c l ih => rw [List.map_cons, List.mapM_cons, ih]; rfl
    have hs : writeString (some s) ++ rest = s.toList.flatMap writeChar ++ '"' :: rest := by
      rw [writeString, List.append_assoc]
      rfl
    rw [hs, readString, h]
    simp only [Option.map_some, hall, String.ofList_toList]
    rfl
  | none =>
    have hescape : Takes (readEscape ('u' :: 'd' :: '8' :: '0' :: '0' :: '"' :: rest)) none
        ('"' :: rest) := rfl
    have hend : Takes (readChars ('"' :: rest)) [] rest := by rw [readChars]; rfl
    obtain ⟨_, h⟩ := (readChars_escape hescape hend).exists
    show Takes (readString ('\\' :: 'u' :: 'd' :: '8' :: '0' :: '0' :: '"' :: rest)) none rest
    rw [readString, h]
    rfl

/-! ### Values -/

theorem skipBlanks_cons {c : Char} (h : isBlank c = false) (cs : List Char) :
    skipBlanks (c :: cs) = .all (c :: cs) := by
  simp [skipBlanks, Rest.span, h]

theorem skipMark_cons (mark : Char) (h : isBlank mark = false) (cs : List Char) :
    skipMark mark (mark :: cs) = some ⟨cs, Nat.lt_succ_self _⟩ := by
  rw [skipMark, skipBlanks_cons h]
  simp [Rest.all]

theorem skipMark_cons_of_ne {c : Char} (mark : Char) (h : isBlank c = false) (hc : c ≠ mark)
    (cs : List Char) : skipMark mark (c :: cs) = none := by
  rw [skipMark, skipBlanks_cons h]
  simp [Rest.all, hc]

/-- What is written of a value does not start like what may stand in its place. -/
theorem exists_write_eq_cons {v : Json} (h : v.numberless = true) :
    ∃ c cs, v.write = c :: cs ∧ isBlank c = false ∧ c ≠ ']' := by
  cases v with
  | null => exact ⟨_, _, by rw [write], by decide, by decide⟩
  | boolean b => cases b <;> exact ⟨_, _, by rw [write], by decide, by decide⟩
  | number digits => simp [numberless] at h
  | string text => exact ⟨_, _, by rw [write], by decide, by decide⟩
  | array items => cases items <;> exact ⟨_, _, by rw [write], by decide, by decide⟩
  | object entries =>
    rcases entries with _ | ⟨⟨key, v⟩, entries⟩ <;>
      exact ⟨_, _, by rw [write], by decide, by decide⟩

theorem readKey_writeString (key : Option String) (rest : List Char) :
    Takes (readKey ('"' :: (writeString key ++ ':' :: rest))) key rest := by
  obtain ⟨_, h⟩ := (readString_writeString key (':' :: rest)).exists
  rw [readKey, skipMark_cons _ (by decide)]
  simp only [Option.bind_eq_bind, Option.bind_some, h, skipMark_cons ':' (by decide)]
  rfl

section Steps

variable {c : Char} {cs mid rest : List Char} {v : Json} {vs : List Json}
  {key : Option String} {entries : List (Option String × Json)}

theorem readValue_scalar (hblank : isBlank c = false) (harray : c ≠ '[') (hobject : c ≠ '\x7b')
    (h : Takes (readScalar c cs) v rest) : Takes (readValue (c :: cs)) v rest := by
  obtain ⟨_, h⟩ := h.exists
  rw [readValue, skipBlanks_cons hblank]
  simp only [Rest.all, beq_eq_false_iff_ne.mpr harray, beq_eq_false_iff_ne.mpr hobject,
    Bool.false_eq_true, if_false, h]
  rfl

theorem readValue_array_nil (rest : List Char) :
    Takes (readValue ('[' :: ']' :: rest)) (.array []) rest := by
  rw [readValue, skipBlanks_cons (by decide)]
  simp only [Rest.all, beq_self_eq_true, if_true, skipMark_cons ']' (by decide)]
  rfl

theorem readValue_array (hnone : skipMark ']' cs = none) (h : Takes (readItems cs) vs rest) :
    Takes (readValue ('[' :: cs)) (.array vs) rest := by
  obtain ⟨_, h⟩ := h.exists
  rw [readValue, skipBlanks_cons (by decide)]
  simp only [Rest.all, beq_self_eq_true, if_true, hnone, h]
  rfl

theorem readValue_object_nil (rest : List Char) :
    Takes (readValue ('\x7b' :: '\x7d' :: rest)) (.object []) rest := by
  rw [readValue, skipBlanks_cons (by decide)]
  simp only [Rest.all, show ('\x7b' == '[') = false from by decide, Bool.false_eq_true, if_false,
    beq_self_eq_true, if_true, skipMark_cons '\x7d' (by decide)]
  rfl

theorem readValue_object (hnone : skipMark '\x7d' cs = none)
    (h : Takes (readEntries cs) entries rest) :
    Takes (readValue ('\x7b' :: cs)) (.object entries) rest := by
  obtain ⟨_, h⟩ := h.exists
  rw [readValue, skipBlanks_cons (by decide)]
  simp only [Rest.all, show ('\x7b' == '[') = false from by decide, Bool.false_eq_true, if_false,
    beq_self_eq_true, if_true, hnone, h]
  rfl

theorem readItems_last (hv : Takes (readValue cs) v (']' :: rest)) :
    Takes (readItems cs) [v] rest := by
  obtain ⟨_, hv⟩ := hv.exists
  rw [readItems, hv]
  simp only [skipMark_cons_of_ne (c := ']') ',' (by decide) (by decide),
    skipMark_cons ']' (by decide)]
  rfl

theorem readItems_cons (hv : Takes (readValue cs) v (',' :: mid)) (h : Takes (readItems mid) vs rest) :
    Takes (readItems cs) (v :: vs) rest := by
  obtain ⟨_, hv⟩ := hv.exists
  obtain ⟨_, h⟩ := h.exists
  rw [readItems, hv]
  simp only [skipMark_cons ',' (by decide), h]
  rfl

theorem readEntries_last (hkey : Takes (readKey cs) key mid)
    (hv : Takes (readValue mid) v ('\x7d' :: rest)) :
    Takes (readEntries cs) [(key, v)] rest := by
  obtain ⟨_, hkey⟩ := hkey.exists
  obtain ⟨_, hv⟩ := hv.exists
  rw [readEntries, hkey]
  simp only [hv, skipMark_cons_of_ne (c := '\x7d') ',' (by decide) (by decide),
    skipMark_cons '\x7d' (by decide)]
  rfl

theorem readEntries_cons {after : List Char} (hkey : Takes (readKey cs) key mid)
    (hv : Takes (readValue mid) v (',' :: after)) (h : Takes (readEntries after) entries rest) :
    Takes (readEntries cs) ((key, v) :: entries) rest := by
  obtain ⟨_, hkey⟩ := hkey.exists
  obtain ⟨_, hv⟩ := hv.exists
  obtain ⟨_, h⟩ := h.exists
  rw [readEntries, hkey]
  simp only [hv, skipMark_cons ',' (by decide), h]
  rfl

end Steps

/-! ### What is written is read -/

mutual

theorem readValue_write : ∀ (v : Json), v.numberless = true → ∀ rest : List Char,
    Takes (readValue (v.write ++ rest)) v rest
  | null, _, rest => by
    rw [write]
    exact readValue_scalar (by decide) (by decide) (by decide) rfl
  | boolean b, _, rest => by
    cases b <;> rw [write] <;> exact readValue_scalar (by decide) (by decide) (by decide) rfl
  | number _, h, _ => by simp [numberless] at h
  | string text, _, rest => by
    obtain ⟨_, htext⟩ := (readString_writeString text rest).exists
    rw [write, List.cons_append]
    refine readValue_scalar (by decide) (by decide) (by decide) ?_
    rw [readScalar, htext]
    rfl
  | array [], _, rest => by
    rw [write]
    exact readValue_array_nil rest
  | array (v :: vs), h, rest => by
    rw [numberless, itemsNumberless, Bool.and_eq_true] at h
    obtain ⟨c, cs, hv, hblank, hc⟩ := exists_write_eq_cons h.1
    rw [write, List.cons_append]
    refine readValue_array ?_ (readItems_write v vs h.1 h.2 rest)
    rw [hv]
    exact skipMark_cons_of_ne _ hblank hc _
  | object [], _, rest => by
    rw [write]
    exact readValue_object_nil rest
  | object ((key, v) :: entries), h, rest => by
    rw [numberless, entriesNumberless, Bool.and_eq_true] at h
    rw [write, List.cons_append]
    exact readValue_object (skipMark_cons_of_ne _ (by decide) (by decide) _)
      (readEntries_write key v entries h.1 h.2 rest)
termination_by v => sizeOf v

theorem readItems_write (v : Json) (vs : List Json) (hv : v.numberless = true)
    (hvs : itemsNumberless vs = true) (rest : List Char) :
    Takes (readItems (v.write ++ writeItems vs ++ rest)) (v :: vs) rest := by
  rw [List.append_assoc]
  cases vs with
  | nil =>
    rw [writeItems]
    exact readItems_last (readValue_write v hv (']' :: rest))
  | cons w ws =>
    rw [itemsNumberless, Bool.and_eq_true] at hvs
    rw [writeItems]
    exact readItems_cons (readValue_write v hv _) (readItems_write w ws hvs.1 hvs.2 rest)
termination_by sizeOf v + sizeOf vs

theorem readEntries_write (key : Option String) (v : Json) :
    ∀ entries : List (Option String × Json), v.numberless = true →
      entriesNumberless entries = true → ∀ rest : List Char,
      Takes (readEntries
          ('"' :: (writeString key ++ ':' :: (v.write ++ writeEntries entries)) ++ rest))
        ((key, v) :: entries) rest
  | [], hv, _, rest => by
    rw [List.cons_append, List.append_assoc, List.cons_append, List.append_assoc, writeEntries]
    exact readEntries_last (readKey_writeString key _) (readValue_write v hv ('\x7d' :: rest))
  | (key', w) :: entries, hv, hentries, rest => by
    rw [entriesNumberless, Bool.and_eq_true] at hentries
    rw [List.cons_append, List.append_assoc, List.cons_append, List.append_assoc, writeEntries]
    exact readEntries_cons (readKey_writeString key _) (readValue_write v hv _)
      (readEntries_write key' w entries hentries.1 hentries.2 rest)
termination_by entries => sizeOf v + sizeOf entries

end

theorem ofText?_of_readValue {s : String} {v : Json} (h : Takes (readValue s.toList) v []) :
    ofText? s = some v := by
  obtain ⟨_, h⟩ := h.exists
  rw [ofText?, h]
  rfl

/-- A value without numbers is read back from its text. -/
theorem ofText?_write {v : Json} (h : v.numberless = true) :
    ofText? (String.ofList v.write) = some v := by
  have hread := readValue_write v h []
  rw [List.append_nil, ← String.toList_ofList (l := v.write)] at hread
  exact ofText?_of_readValue hread

end SchemaWeave.Json
