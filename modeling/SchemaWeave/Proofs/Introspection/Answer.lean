import Mathlib.Data.List.Nodup
import SchemaWeave.Proofs.Introspection.Listing
import SchemaWeave.Proofs.Json.RoundTrip

/-!
# Answers read back

The answer to the introspection query is read as the listing that it was written from, with each
reference cut after the layers that the query follows. Every answer has a text.

An answer is nested far less than a response may be, so the limit of the depth is never met.
-/

namespace SchemaWeave.Introspection

/-! ## What is left of a listing -/

/-- What is told of a reference that is followed through a number of layers. -/
def ListedReference.cut : Nat → ListedReference → ListedReference
  | 0, .layer kind name _ => .layer kind name none
  | n + 1, .layer kind name inner => .layer kind name (inner.map (cut n))

def ListedInputValue.cut (v : ListedInputValue) : ListedInputValue :=
  { v with type := v.type.cut referenceDepth }

def ListedField.cut (f : ListedField) : ListedField :=
  { f with arguments := f.arguments.map ListedInputValue.cut, type := f.type.cut referenceDepth }

def ListedType.cut (t : ListedType) : ListedType :=
  { t with
    fields := t.fields.map (List.map ListedField.cut)
    inputFields := t.inputFields.map (List.map ListedInputValue.cut)
    interfaces := t.interfaces.map (List.map (ListedReference.cut referenceDepth))
    possibleTypes := t.possibleTypes.map (List.map (ListedReference.cut referenceDepth)) }

def ListedDirective.cut (d : ListedDirective) : ListedDirective :=
  { d with arguments := d.arguments.map ListedInputValue.cut }

def Listing.cut (l : Listing) : Listing :=
  { l with types := l.types.map ListedType.cut, directives := l.directives.map ListedDirective.cut }

/-! ## Records -/

/-- What an object has under a key where a value may be. -/
def Slot.ofOption : Option Json → Slot
  | some v => .given v
  | none => .absent

theorem filter_key {entries : List (String × Json)} (h : (entries.map Prod.fst).Nodup)
    (key : String) :
    (entries.map fun e => (some e.1, e.2)).filter (fun e => e.1 = some key) =
      (entries.lookup key).toList.map fun v => (some key, v) := by
  induction entries with
  | nil => rfl
  | cons e entries ih =>
    obtain ⟨hnew, hrest⟩ := List.nodup_cons.mp h
    rw [List.map_cons, List.filter_cons, ih hrest, List.lookup_cons]
    by_cases he : key = e.1
    · subst he
      have hnone : entries.lookup e.1 = none := by
        refine List.lookup_eq_none_iff.mpr fun e' he' => ?_
        have hne : e.1 ≠ e'.1 := fun heq => hnew (heq ▸ List.mem_map_of_mem he')
        simpa using hne
      simp [hnone]
    · have hne : (key == e.1) = false := by simpa using he
      simp [hne, Ne.symm he]

/-- A record whose keys are not repeated has under each key what it was made with. -/
theorem slots_record {entries : List (String × Json)} (h : (entries.map Prod.fst).Nodup)
    (keys : List String) :
    slots keys (.record entries) =
      some (keys.map fun key => (key, .ofOption (entries.lookup key))) := by
  have hkeys : (entries.map fun e => (some e.1, e.2)).any (fun e => e.1.isNone) = false := by
    simp
  have hslot (key : String) : slotOf (entries.map fun e => (some e.1, e.2)) key =
      some (key, .ofOption (entries.lookup key)) := by
    rw [slotOf, filter_key h]
    cases entries.lookup key <;> rfl
  rw [Json.record, slots, if_neg (by rw [hkeys]; decide)]
  induction keys with
  | nil => rfl
  | cons key keys ih => rw [List.mapM_cons, hslot, ih]; rfl

/-! ## Decoders -/

namespace Decoder

variable {α β : Type}

/-- Whether a decoder reads at a depth what is written of a value as something that the value
gives, and never as what is missing. -/
def Reads (d : Decoder β) (depth : Nat) (json : α → Json) (f : α → β) : Prop :=
  ∀ a, json a ≠ .null ∧ d depth (json a) = some (f a)

theorem record_record {entries : List (String × Json)} (h : (entries.map Prod.fst).Nodup)
    (keys : List String) (k : Record → Option α) (depth : Nat) :
    record keys k (depth + 1) (.record entries) =
      k ⟨depth, keys.map fun key => (key, .ofOption (entries.lookup key))⟩ := by
  rw [record, slots_record h]
  rfl

section Slots

variable {r : Record} {key : String} {d : Decoder β} {json : α → Json} {f : α → β}

theorem Reads.required (h : Reads d r.depth json f) {a : α} (hslot : r.slot key = .given (json a)) :
    r.required key d = some (f a) := by
  rw [Record.required, hslot]
  exact (h a).2

theorem Reads.defaulted (h : Reads d r.depth json f) {a : α}
    (hslot : r.slot key = .given (json a)) (default : β) :
    r.defaulted key d default = some (f a) := by
  rw [Record.defaulted, hslot]
  exact (h a).2

theorem Reads.optional (h : Reads d r.depth json f) {o : Option α}
    (hslot : r.slot key = .given (optionalJson json o)) : r.optional key d = some (o.map f) := by
  rw [Record.optional, hslot]
  cases o with
  | none => rfl
  | some a =>
    obtain ⟨hnull, hread⟩ := h a
    simp only [optionalJson, Option.map_some, hread]

end Slots

theorem reads_text (depth : Nat) : Reads string depth .text id := fun _ => ⟨by simp [Json.text], rfl⟩

theorem reads_boolean (depth : Nat) : Reads boolean depth .boolean id := fun _ => ⟨by simp, rfl⟩

theorem reads_kind (depth : Nat) : Reads kind depth Kind.json id := by
  intro k
  refine ⟨by simp [Kind.json, Json.text], ?_⟩
  show Kind.all.find? (fun k' => k'.text = k.text) = some k
  cases k <;> decide

theorem reads_list {d : Decoder β} {depth : Nat} {json : α → Json} {f : α → β}
    (h : Reads d depth json f) : Reads (list d) (depth + 1) (listJson json) (List.map f) := by
  intro as
  refine ⟨by simp [listJson], ?_⟩
  rw [listJson, list]
  induction as with
  | nil => rfl
  | cons a as ih => rw [List.map_cons, List.mapM_cons, (h a).2, ih]; rfl

/-! ## The parts of an answer -/

/-- A reference is a record that may have one of its own kind inside. -/
theorem reference_succ (depth : Nat) (j : Json) :
    reference (depth + 1) j = record ["kind", "name", "ofType"] (fun r => do
      return .layer (← r.required "kind" kind) (← r.optional "name" string)
        (← r.optional "ofType" reference)) (depth + 1) j := by
  rw [reference, record]
  -- what follows the inner reference is the same in each of its cases
  refine Option.bind_congr fun s _ => Option.bind_congr fun k _ =>
    Option.bind_congr fun name _ => ?_
  simp only [Record.optional]
  split <;> rfl

theorem reads_reference {n depth : Nat} (h : n < depth) :
    Reads reference depth (ListedReference.json n) (ListedReference.cut n) := by
  induction n generalizing depth with
  | zero =>
    rintro ⟨kind, name, inner⟩
    obtain ⟨depth, rfl⟩ := Nat.exists_eq_succ_of_ne_zero (Nat.ne_of_gt h)
    refine ⟨by simp [ListedReference.json, Json.record], ?_⟩
    rw [ListedReference.json, reference_succ, record_record (by simp)]
    rw [(reads_kind depth).required rfl, (reads_text depth).optional rfl, Option.map_id]
    rfl
  | succ n ih =>
    rintro ⟨kind, name, inner⟩
    obtain ⟨depth, rfl⟩ := Nat.exists_eq_succ_of_ne_zero (Nat.ne_of_gt (Nat.zero_lt_of_lt h))
    refine ⟨by simp [ListedReference.json, Json.record], ?_⟩
    rw [ListedReference.json, reference_succ, record_record (by simp)]
    rw [(reads_kind depth).required rfl, (reads_text depth).optional rfl,
      (ih (Nat.lt_of_succ_lt_succ h)).optional rfl, Option.map_id]
    rfl

theorem reads_enumValue (depth : Nat) :
    Reads enumValue (depth + 1) ListedEnumValue.json id := by
  intro v
  refine ⟨by simp [ListedEnumValue.json, Json.record], ?_⟩
  rw [ListedEnumValue.json, enumValue, record_record (by simp),
    (reads_text depth).required rfl, (reads_text depth).optional rfl,
    (reads_boolean depth).defaulted rfl, (reads_text depth).optional rfl]
  simp only [Option.map_id]
  rfl

theorem reads_rootName (depth : Nat) : Reads rootName (depth + 1) rootJson id := by
  intro n
  refine ⟨by simp [rootJson, Json.record], ?_⟩
  rw [rootJson, rootName, record_record (by simp), (reads_text depth).required rfl]

section References

variable {depth : Nat} (h : referenceDepth < depth)

include h

theorem reads_inputValue :
    Reads inputValue (depth + 1) ListedInputValue.json ListedInputValue.cut := by
  intro v
  refine ⟨by simp [ListedInputValue.json, Json.record], ?_⟩
  rw [ListedInputValue.json, inputValue, record_record (by simp),
    (reads_text depth).required rfl, (reads_text depth).optional rfl,
    (reads_reference h).required rfl, (reads_text depth).optional rfl]
  simp only [Option.map_id]
  rfl

theorem reads_field : Reads field (depth + 3) ListedField.json ListedField.cut := by
  intro f
  refine ⟨by simp [ListedField.json, Json.record], ?_⟩
  have hreference := reads_reference (Nat.lt_add_right 2 h)
  rw [ListedField.json, field, record_record (by simp),
    (reads_text (depth + 2)).required rfl, (reads_text (depth + 2)).optional rfl,
    (reads_list (reads_inputValue h)).defaulted rfl, hreference.required rfl,
    (reads_boolean (depth + 2)).defaulted rfl, (reads_text (depth + 2)).optional rfl]
  simp only [Option.map_id]
  rfl

theorem reads_type : Reads type (depth + 5) ListedType.json ListedType.cut := by
  intro t
  refine ⟨by simp [ListedType.json, Json.record], ?_⟩
  have hreferences := reads_list (reads_reference (Nat.lt_add_right 3 h))
  have hinputValues := reads_list (reads_inputValue (Nat.lt_add_right 2 h))
  rw [ListedType.json, type, record_record (by simp),
    (reads_kind (depth + 4)).required rfl, (reads_text (depth + 4)).required rfl,
    (reads_text (depth + 4)).optional rfl, (reads_text (depth + 4)).optional rfl,
    (reads_list (reads_field h)).optional rfl, hinputValues.optional rfl,
    hreferences.optional rfl, (reads_list (reads_enumValue (depth + 2))).optional rfl,
    hreferences.optional rfl]
  simp only [Option.map_id, List.map_id_fun]
  rfl

theorem reads_directive :
    Reads directive (depth + 3) ListedDirective.json ListedDirective.cut := by
  intro d
  refine ⟨by simp [ListedDirective.json, Json.record], ?_⟩
  rw [ListedDirective.json, directive, record_record (by simp),
    (reads_text (depth + 2)).required rfl, (reads_text (depth + 2)).optional rfl,
    (reads_list (reads_text (depth + 1))).required rfl,
    (reads_list (reads_inputValue h)).defaulted rfl, (reads_boolean (depth + 2)).defaulted rfl]
  simp only [Option.map_id, List.map_id_fun]
  rfl

theorem reads_listing : Reads listing (depth + 7) Listing.json Listing.cut := by
  intro l
  refine ⟨by simp [Listing.json, Json.record], ?_⟩
  rw [Listing.json, listing, record_record (by simp),
    (reads_rootName (depth + 5)).optional rfl, (reads_rootName (depth + 5)).optional rfl,
    (reads_rootName (depth + 5)).optional rfl, (reads_list (reads_type h)).required rfl,
    (reads_list (reads_directive (Nat.lt_add_right 2 h))).defaulted rfl]
  simp only [Option.map_id]
  rfl

theorem reads_data : Reads data (depth + 8) Listing.dataJson Listing.cut := by
  intro l
  refine ⟨by simp [Listing.dataJson, Json.record], ?_⟩
  rw [Listing.dataJson, data, record_record (by simp), (reads_listing h).required rfl]

/-- The answer is read as the listing that it was written from, cut. -/
theorem response_answer (l : Listing) :
    response (depth + 9) l.answer = some ⟨some l.cut, none, []⟩ := by
  rw [Listing.answer, response, record_record (by simp), (reads_data h).optional (o := some l) rfl]
  rfl

end References

end Decoder

/-! ## Texts -/

theorem numberless_optionalJson {α : Type} {json : α → Json} (h : ∀ a, (json a).numberless = true)
    (o : Option α) : (optionalJson json o).numberless = true := by
  cases o with
  | none => rfl
  | some a => exact h a

theorem numberless_listJson {α : Type} {json : α → Json} (h : ∀ a, (json a).numberless = true)
    (as : List α) : (listJson json as).numberless = true := by
  simp [listJson, h]

theorem numberless_reference (n : Nat) (r : ListedReference) : (r.json n).numberless = true := by
  induction n generalizing r with
  | zero =>
    cases r
    simp [ListedReference.json, Kind.json, numberless_optionalJson]
  | succ n ih =>
    cases r
    simp [ListedReference.json, Kind.json, numberless_optionalJson, ih]

theorem numberless_inputValue (v : ListedInputValue) : v.json.numberless = true := by
  simp [ListedInputValue.json, numberless_optionalJson, numberless_reference]

theorem numberless_answer (l : Listing) : l.answer.numberless = true := by
  have hfield (f : ListedField) : f.json.numberless = true := by
    simp [ListedField.json, numberless_optionalJson, numberless_listJson, numberless_reference,
      numberless_inputValue]
  have henumValue (v : ListedEnumValue) : v.json.numberless = true := by
    simp [ListedEnumValue.json, numberless_optionalJson]
  have htype (t : ListedType) : t.json.numberless = true := by
    simp [ListedType.json, Kind.json, numberless_optionalJson, numberless_listJson,
      numberless_reference, numberless_inputValue, hfield, henumValue]
  have hdirective (d : ListedDirective) : d.json.numberless = true := by
    simp [ListedDirective.json, numberless_optionalJson, numberless_listJson,
      numberless_inputValue]
  have hroot (n : String) : (rootJson n).numberless = true := by simp [rootJson]
  simp [Listing.answer, Listing.dataJson, Listing.json, numberless_optionalJson,
    numberless_listJson, htype, hdirective, hroot]

/-- The text of the answer without blanks. -/
def Listing.text (l : Listing) : String := String.ofList l.answer.write

theorem Listing.ofText?_text (l : Listing) : Json.ofText? l.text = some l.answer :=
  Json.ofText?_write (numberless_answer l)

/-- A text of the answer is read as the listing that the answer was written from, cut. -/
theorem Response.ofText?_of_answer {l : Listing} {text : String}
    (h : Json.ofText? text = some l.answer) :
    Response.ofText? text = some ⟨some l.cut, none, []⟩ := by
  have hdepth : depthLimit = 118 + 9 := rfl
  rw [Response.ofText?, h, Option.bind_some, hdepth, Decoder.response_answer (by decide)]

end SchemaWeave.Introspection
