import SchemaWeave.Name

/-!
# Values and applied directives

Default values and the arguments of applied directives are kept as they are written: numbers
keep their digits, objects keep their order and their repeated fields. Two values are equal
when they are written alike, however a string was quoted.
-/

namespace SchemaWeave

inductive Value where
  | null
  | boolean (b : Bool)
  | int (digits : String)
  | float (digits : String)
  | string (text : String)
  | enum (name : Name)
  | var (name : Name)
  | list (items : List Value)
  | object (fields : List (Name × Value))

namespace Value

/-! ## Equality -/

mutual

/-- Decides whether two values are written alike. -/
def decEq : (v w : Value) → Decidable (v = w)
  | null, null => isTrue rfl
  | boolean a, boolean b => decidable_of_iff (a = b) (by simp)
  | int a, int b => decidable_of_iff (a = b) (by simp)
  | float a, float b => decidable_of_iff (a = b) (by simp)
  | string a, string b => decidable_of_iff (a = b) (by simp)
  | enum a, enum b => decidable_of_iff (a = b) (by simp)
  | var a, var b => decidable_of_iff (a = b) (by simp)
  | list a, list b => @decidable_of_iff _ (a = b) (by simp) (decEqList a b)
  | object a, object b => @decidable_of_iff _ (a = b) (by simp) (decEqFields a b)
  | null, boolean _ | null, int _ | null, float _ | null, string _ | null, enum _
  | null, var _ | null, list _ | null, object _
  | boolean _, null | boolean _, int _ | boolean _, float _ | boolean _, string _
  | boolean _, enum _ | boolean _, var _ | boolean _, list _ | boolean _, object _
  | int _, null | int _, boolean _ | int _, float _ | int _, string _ | int _, enum _
  | int _, var _ | int _, list _ | int _, object _
  | float _, null | float _, boolean _ | float _, int _ | float _, string _ | float _, enum _
  | float _, var _ | float _, list _ | float _, object _
  | string _, null | string _, boolean _ | string _, int _ | string _, float _
  | string _, enum _ | string _, var _ | string _, list _ | string _, object _
  | enum _, null | enum _, boolean _ | enum _, int _ | enum _, float _ | enum _, string _
  | enum _, var _ | enum _, list _ | enum _, object _
  | var _, null | var _, boolean _ | var _, int _ | var _, float _
  | var _, string _ | var _, enum _ | var _, list _ | var _, object _
  | list _, null | list _, boolean _ | list _, int _ | list _, float _ | list _, string _
  | list _, enum _ | list _, var _ | list _, object _
  | object _, null | object _, boolean _ | object _, int _ | object _, float _
  | object _, string _ | object _, enum _ | object _, var _ | object _, list _ =>
    isFalse (by simp)

/-- `decEq` through a list. -/
def decEqList : (vs ws : List Value) → Decidable (vs = ws)
  | [], [] => isTrue rfl
  | [], _ :: _ | _ :: _, [] => isFalse (by simp)
  | v :: vs, w :: ws =>
    match decEq v w, decEqList vs ws with
    | isTrue h, isTrue h' => isTrue (by rw [h, h'])
    | isFalse h, _ | _, isFalse h => isFalse (by simp [h])

/-- `decEq` through the fields of an object. -/
def decEqFields : (vs ws : List (Name × Value)) → Decidable (vs = ws)
  | [], [] => isTrue rfl
  | [], _ :: _ | _ :: _, [] => isFalse (by simp)
  | (m, v) :: vs, (n, w) :: ws =>
    match decEq v w, decEqFields vs ws with
    | isTrue h, isTrue h' => decidable_of_iff (m = n) (by simp [h, h'])
    | isFalse h, _ | _, isFalse h => isFalse (by simp [h])

end

instance : DecidableEq Value := decEq

end Value

/-- One use of a directive, with its arguments as they are written. -/
structure Directive where
  name : Name
  arguments : List (Name × Value)
deriving DecidableEq

end SchemaWeave
