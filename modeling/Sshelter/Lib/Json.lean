import Mathlib

/-! # JSON values and record decoding

The value type of a JSON library together with the accessors a caller uses on
it, and the rules by which a derived decoder reads a record type out of a value.
Objects list their fields in key order, as an ordered map does.  An integer that
fits an unsigned 64-bit word is `num`; every other number is kept as its text in
`real`, since no accessor below looks inside it.

A derived decoder accepts a record either as an object, field by field, or as an
array, position by position.  `Json.record` turns both shapes into one lookup
function and rejects unknown fields when the record type does.
-/

namespace Sshelter

/-- A JSON value. -/
inductive Json where
  | null
  | bool (value : Bool)
  | num (value : Nat)
  | real (text : String)
  | str (text : String)
  | arr (items : List Json)
  | obj (fields : List (String × Json))
deriving Repr, Inhabited

namespace Json

/-! ## Decidable equality -/

mutual

def decEq : (a b : Json) → Decidable (a = b)
  | .null, .null => isTrue rfl
  | .bool a, .bool b => decidable_of_iff (a = b) (by simp)
  | .num a, .num b => decidable_of_iff (a = b) (by simp)
  | .real a, .real b => decidable_of_iff (a = b) (by simp)
  | .str a, .str b => decidable_of_iff (a = b) (by simp)
  | .arr a, .arr b => @decidable_of_iff _ (a = b) (by simp) (decEqItems a b)
  | .obj a, .obj b => @decidable_of_iff _ (a = b) (by simp) (decEqFields a b)
  | .null, .bool _ | .null, .num _ | .null, .real _ | .null, .str _ | .null, .arr _ | .null, .obj _
  | .bool _, .null | .bool _, .num _ | .bool _, .real _ | .bool _, .str _ | .bool _, .arr _
  | .bool _, .obj _ | .num _, .null | .num _, .bool _ | .num _, .real _ | .num _, .str _
  | .num _, .arr _ | .num _, .obj _ | .real _, .null | .real _, .bool _ | .real _, .num _
  | .real _, .str _ | .real _, .arr _ | .real _, .obj _ | .str _, .null | .str _, .bool _
  | .str _, .num _ | .str _, .real _ | .str _, .arr _ | .str _, .obj _ | .arr _, .null
  | .arr _, .bool _ | .arr _, .num _ | .arr _, .real _ | .arr _, .str _ | .arr _, .obj _
  | .obj _, .null | .obj _, .bool _ | .obj _, .num _ | .obj _, .real _ | .obj _, .str _
  | .obj _, .arr _ => isFalse (by simp)

def decEqItems : (a b : List Json) → Decidable (a = b)
  | [], [] => isTrue rfl
  | [], _ :: _ => isFalse (by simp)
  | _ :: _, [] => isFalse (by simp)
  | x :: xs, y :: ys =>
    match decEq x y, decEqItems xs ys with
    | isTrue head, isTrue tail => isTrue (by rw [head, tail])
    | isFalse head, _ => isFalse (by simp [head])
    | _, isFalse tail => isFalse (by simp [tail])

def decEqFields : (a b : List (String × Json)) → Decidable (a = b)
  | [], [] => isTrue rfl
  | [], _ :: _ => isFalse (by simp)
  | _ :: _, [] => isFalse (by simp)
  | (k, x) :: xs, (l, y) :: ys =>
    if key : k = l then
      match decEq x y, decEqFields xs ys with
      | isTrue head, isTrue tail => isTrue (by rw [key, head, tail])
      | isFalse head, _ => isFalse (by simp [head])
      | _, isFalse tail => isFalse (by simp [tail])
    else isFalse (by simp [key])

end

instance : DecidableEq Json := decEq

/-! ## Accessors -/

/-- The field of an object; nothing for a missing field or any other value. -/
def get : Json → String → Option Json
  | .obj fields, key => fields.lookup key
  | _, _ => none

/-- Field access that reads an absent field as `null`. -/
def index (value : Json) (key : String) : Json := (value.get key).getD .null

def asU64 : Json → Option Nat
  | .num n => some n
  | _ => none

def asStr : Json → Option String
  | .str s => some s
  | _ => none

def asBool : Json → Option Bool
  | .bool b => some b
  | _ => none

def asObject : Json → Option (List (String × Json))
  | .obj fields => some fields
  | _ => none

def asArray : Json → Option (List Json)
  | .arr items => some items
  | _ => none

def isNull : Json → Bool
  | .null => true
  | _ => false

/-- Insertion into a field list kept in key order. -/
def setField (key : String) (value : Json) : List (String × Json) → List (String × Json)
  | [] => [(key, value)]
  | (k, v) :: rest =>
    if key = k then (key, value) :: rest
    else if key < k then (key, value) :: (k, v) :: rest
    else (k, v) :: setField key value rest

/-- Assignment to a field of an object; `null` becomes an object first. -/
def set (value : Json) (key : String) (new : Json) : Json :=
  match value with
  | .obj fields => .obj (setField key new fields)
  | .null => .obj [(key, new)]
  | other => other

theorem lookup_cons (k name : String) (value : Json) (rest : List (String × Json)) :
    List.lookup k ((name, value) :: rest) = if k = name then some value else rest.lookup k := by
  by_cases same : k = name <;> simp [List.lookup, same, beq_eq_false_iff_ne.mpr]

theorem lookup_setField (key : String) (value : Json) (fields : List (String × Json)) (k : String) :
    (setField key value fields).lookup k = if k = key then some value else fields.lookup k := by
  induction fields with
  | nil => simp [setField, lookup_cons]
  | cons field rest ih =>
    obtain ⟨name, old⟩ := field
    simp only [setField]
    split
    · subst name
      simp only [lookup_cons]
      split <;> rfl
    · split
      · rw [lookup_cons]
      · simp only [lookup_cons, ih]
        grind

theorem get_set_ne {json value : Json} {key other : String} (apart : other ≠ key) :
    (json.set key value).get other = json.get other := by
  cases json with
  | obj fields => simp only [set, get, lookup_setField, apart, if_false]
  | null => simp [set, get, lookup_cons, apart]
  | _ => rfl

theorem setField_setField (key : String) (old new : Json) (fields : List (String × Json)) :
    setField key new (setField key old fields) = setField key new fields := by
  induction fields with
  | nil => simp [setField]
  | cons field rest ih =>
    obtain ⟨name, value⟩ := field
    simp only [setField]
    split
    · simp [setField]
    · split
      · simp [setField]
      · simp only [setField, *, if_false]

theorem mem_setField {key : String} {value : Json} {fields : List (String × Json)}
    {entry : String × Json} (member : entry ∈ setField key value fields) :
    entry = (key, value) ∨ entry ∈ fields := by
  induction fields with
  | nil => simpa [setField] using member
  | cons first rest ih =>
    simp only [setField] at member
    split at member
    · simp only [List.mem_cons] at member ⊢
      tauto
    · split at member
      · simp only [List.mem_cons] at member ⊢
        tauto
      · simp only [List.mem_cons] at member ⊢
        obtain same | later := member
        · exact .inr (.inl same)
        · exact (ih later).imp_right .inr

/-! ## Decoders -/

/-- A derived record decoder's view of a value: the fields by name.  `names` are the
record's fields in declaration order; `strict` types refuse any other field. -/
def record (names : List String) (strict : Bool) : Json → Option (String → Option Json)
  | .obj fields =>
    if strict && fields.any (fun field => !names.contains field.1) then none
    else some fun name => fields.lookup name
  | .arr items =>
    if names.length < items.length then none
    else some fun name => (names.zip items).lookup name
  | _ => none

/-- Assigning to a known field changes what the decoder sees of that field. -/
theorem record_set {names : List String} {key : String} {value : Json} {fields : List (String × Json)}
    {view : String → Option Json} (known : key ∈ names) (read : (obj fields).record names true = some view) :
    ((obj fields).set key value).record names true =
      some fun name => if name = key then some value else view name := by
  simp only [record, Bool.true_and, set] at read ⊢
  split at read
  · cases read
  · rename_i strict
    cases read
    rw [if_neg]
    · simp only [lookup_setField]
    · simp only [List.any_eq_true, Bool.not_eq_eq_eq_not, Bool.not_true, not_exists, not_and,
        Bool.not_eq_false] at strict ⊢
      intro entry member
      obtain rfl | before := mem_setField member
      · simpa using known
      · exact strict entry before

/-- An unsigned integer of the given width in bits. -/
def uint (bits : Nat) : Json → Option Nat
  | .num n => if n < 2 ^ bits then some n else none
  | _ => none

def asU16 (value : Json) : Option UInt16 := (uint 16 value).map UInt16.ofNat

def asU32 (value : Json) : Option UInt32 := (uint 32 value).map UInt32.ofNat

def ofU16 (value : UInt16) : Json := .num value.toNat

def ofU32 (value : UInt32) : Json := .num value.toNat

/-- A unit variant of an enumeration: its name, or an object mapping its name to `null`. -/
def variant : Json → Option String
  | .str name => some name
  | .obj [(name, .null)] => some name
  | _ => none

/-- A sequence decoded item by item. -/
def listOf {α : Type} (item : Json → Option α) : Json → Option (List α)
  | .arr items => items.mapM item
  | _ => none

/-- An optional value: `null` is nothing. -/
def optionOf {α : Type} (value : Json → Option α) : Json → Option (Option α)
  | .null => some none
  | other => (value other).map some

/-- A required field. -/
def field {α : Type} (fields : String → Option Json) (name : String) (value : Json → Option α) :
    Option α :=
  (fields name).bind value

/-- A field with a default used when it is absent. -/
def fieldOr {α : Type} (fields : String → Option Json) (name : String) (value : Json → Option α)
    (default : α) : Option α :=
  match fields name with
  | none => some default
  | some json => value json

/-- A field that is left out when it has nothing to say. -/
def optional (name : String) : Option Json → List (String × Json)
  | none => []
  | some value => [(name, value)]

/-- An optional value as JSON. -/
def ofOption {α : Type} (value : α → Json) : Option α → Json
  | none => .null
  | some a => value a

@[simp] theorem uint_num {bits n : Nat} (bound : n < 2 ^ bits) : uint bits (.num n) = some n := by
  simp [uint, bound]

@[simp] theorem asU16_ofU16 (value : UInt16) : asU16 (ofU16 value) = some value := by
  simp [asU16, ofU16, uint, value.toNat_lt]

@[simp] theorem asU32_ofU32 (value : UInt32) : asU32 (ofU32 value) = some value := by
  simp [asU32, ofU32, uint, value.toNat_lt]

@[simp] theorem listOf_arr_map {α : Type} (write : α → Json) (read : Json → Option α)
    (values : List α) (inverse : ∀ a ∈ values, read (write a) = some a) :
    listOf read (.arr (values.map write)) = some values := by
  induction values with
  | nil => rfl
  | cons a rest ih =>
    simp only [List.mem_cons, forall_eq_or_imp] at inverse
    have tail := ih inverse.2
    simp only [listOf] at tail
    simp [listOf, inverse.1, tail]

theorem optionOf_ofOption {α : Type} (write : α → Json) (read : Json → Option α)
    (inverse : ∀ a, read (write a) = some a) (solid : ∀ a, write a ≠ .null) (value : Option α) :
    optionOf read (ofOption write value) = some value := by
  cases value with
  | none => rfl
  | some a =>
    have notNull := solid a
    have reads := inverse a
    simp only [ofOption]
    cases shape : write a <;> simp_all [optionOf]

/-- A text field that was left out or written reads back. -/
@[simp] theorem optionOf_asStr (value : Option String) :
    optionOf asStr (ofOption str value) = some value :=
  optionOf_ofOption str asStr (fun _ => rfl) (fun _ => by simp) value

@[simp] theorem listOf_asStr (values : List String) :
    listOf asStr (.arr (values.map str)) = some values :=
  listOf_arr_map str asStr values fun _ _ => rfl

theorem lookup_optional (k name : String) (value : Option Json) :
    (optional name value).lookup k = if k = name then value else none := by
  cases value with
  | none => simp [optional]
  | some v => simp [optional, lookup_cons]

theorem lookup_append (k : String) (xs ys : List (String × Json)) :
    (xs ++ ys).lookup k = (xs.lookup k).or (ys.lookup k) := by
  induction xs with
  | nil => simp
  | cons field rest ih =>
    obtain ⟨name, value⟩ := field
    simp only [List.cons_append, lookup_cons, ih]
    split <;> simp

theorem any_optional (name : String) (value : Option Json) (p : String × Json → Bool)
    (known : ∀ v, p (name, v) = false) : (optional name value).any p = false := by
  cases value <;> simp [optional, known]

/-- Reading a field that its writer leaves out when it has nothing to say. -/
theorem fieldOr_optional {α : Type} (write : α → Json) (read : Json → Option α)
    (inverse : ∀ a, read (write a) = some a) (solid : ∀ a, write a ≠ .null) (value : Option α)
    {fields : String → Option Json} {name : String} (found : fields name = value.map write) :
    fieldOr fields name (optionOf read) none = some value := by
  cases value with
  | none => simp [fieldOr, found]
  | some a =>
    have reads := optionOf_ofOption write read inverse solid (some a)
    simpa [fieldOr, found, ofOption] using reads

/-- One step of a decoder: the next field reads, and so does the rest. -/
theorem read_step {α β : Type} {read : Option α} {rest : α → Option β} {a : α} {b : β}
    (here : read = some a) (next : rest a = some b) : (read >>= rest) = some b := by
  subst here
  exact next

end Json

end Sshelter
