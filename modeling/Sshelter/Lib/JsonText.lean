import Sshelter.Lib.Json

/-! # A self-delimiting text form of JSON

A codec for JSON values that needs no escaping: every constructor is one letter,
and every sequence marks each element with `,` and its end with `.`.  Reading what
was written gives the value back and leaves the rest of the input untouched.
-/

namespace Sshelter.JsonText

open Json

/-! ## Writing -/

def writeChars : List Char → List Char
  | [] => ['.']
  | c :: rest => ',' :: c :: writeChars rest

/-- Decimal digits, least significant first; the first argument bounds their number. -/
def writeDigits : Nat → Nat → List Char
  | 0, _ => ['.']
  | _ + 1, 0 => ['.']
  | fuel + 1, n + 1 => Char.ofNat (48 + (n + 1) % 10) :: writeDigits fuel ((n + 1) / 10)

mutual

def write : Json → List Char
  | .null => ['n']
  | .bool true => ['t']
  | .bool false => ['f']
  | .num n => 'u' :: writeDigits n n
  | .real text => 'r' :: writeChars text.toList
  | .str text => 's' :: writeChars text.toList
  | .arr items => 'a' :: writeItems items
  | .obj fields => 'o' :: writeFields fields

def writeItems : List Json → List Char
  | [] => ['.']
  | item :: rest => ',' :: (write item ++ writeItems rest)

def writeFields : List (String × Json) → List Char
  | [] => ['.']
  | (key, value) :: rest => ',' :: (writeChars key.toList ++ (write value ++ writeFields rest))

end

/-! ## Reading -/

def readChars : List Char → Option (List Char × List Char)
  | '.' :: rest => some ([], rest)
  | ',' :: c :: rest => (readChars rest).map fun (text, rest) => (c :: text, rest)
  | _ => none

def readDigits : List Char → Option (Nat × List Char)
  | [] => none
  | c :: rest =>
    if c = '.' then some (0, rest)
    else (readDigits rest).map fun (n, rest) => (c.toNat - 48 + 10 * n, rest)

mutual

def read : Nat → List Char → Option (Json × List Char)
  | 0, _ => none
  | _ + 1, [] => none
  | fuel + 1, c :: rest =>
    match c with
    | 'n' => some (.null, rest)
    | 't' => some (.bool true, rest)
    | 'f' => some (.bool false, rest)
    | 'u' => (readDigits rest).map fun (n, rest) => (.num n, rest)
    | 'r' => (readChars rest).map fun (text, rest) => (.real (String.ofList text), rest)
    | 's' => (readChars rest).map fun (text, rest) => (.str (String.ofList text), rest)
    | 'a' => (readItems fuel rest).map fun (items, rest) => (.arr items, rest)
    | 'o' => (readFields fuel rest).map fun (fields, rest) => (.obj fields, rest)
    | _ => none

def readItems : Nat → List Char → Option (List Json × List Char)
  | 0, _ => none
  | _ + 1, [] => none
  | fuel + 1, c :: rest =>
    if c = '.' then some ([], rest)
    else do
      let (item, rest) ← read fuel rest
      let (items, rest) ← readItems fuel rest
      return (item :: items, rest)

def readFields : Nat → List Char → Option (List (String × Json) × List Char)
  | 0, _ => none
  | _ + 1, [] => none
  | fuel + 1, c :: rest =>
    if c = '.' then some ([], rest)
    else do
      let (key, rest) ← readChars rest
      let (value, rest) ← read fuel rest
      let (fields, rest) ← readFields fuel rest
      return ((String.ofList key, value) :: fields, rest)

end

/-! ## Reading what was written -/

theorem readChars_writeChars (text rest : List Char) :
    readChars (writeChars text ++ rest) = some (text, rest) := by
  induction text with
  | nil => rfl
  | cons c text ih => simp [writeChars, readChars, ih]

theorem readDigits_writeDigits (fuel n : Nat) (enough : n ≤ fuel) (rest : List Char) :
    readDigits (writeDigits fuel n ++ rest) = some (n, rest) := by
  induction fuel generalizing n with
  | zero =>
    obtain rfl : n = 0 := by omega
    rfl
  | succ fuel ih =>
    cases n with
    | zero => rfl
    | succ n =>
      have smaller := ih ((n + 1) / 10) (by omega)
      have digit : (n + 1) % 10 < 10 := Nat.mod_lt _ (by decide)
      have char : ∀ d, d < 10 → Char.ofNat (48 + d) ≠ '.' ∧ (Char.ofNat (48 + d)).toNat - 48 = d := by
        decide
      obtain ⟨notEnd, value⟩ := char _ digit
      simp only [writeDigits, List.cons_append, readDigits, if_neg notEnd, smaller, value, Option.map_some]
      congr 2
      omega

theorem write_length_pos (json : Json) : 0 < (write json).length := by
  cases json with
  | bool value => cases value <;> simp [write]
  | _ => simp [write]

/-- Reading back, by induction on the fuel that bounds the input's length. -/
theorem read_written (fuel : Nat) :
    (∀ json rest, (write json).length ≤ fuel → read fuel (write json ++ rest) = some (json, rest)) ∧
    (∀ items rest, (writeItems items).length ≤ fuel →
      readItems fuel (writeItems items ++ rest) = some (items, rest)) ∧
    (∀ fields rest, (writeFields fields).length ≤ fuel →
      readFields fuel (writeFields fields ++ rest) = some (fields, rest)) := by
  induction fuel with
  | zero =>
    refine ⟨fun json rest enough => ?_, fun items rest enough => ?_, fun fields rest enough => ?_⟩
    · have positive := write_length_pos json
      omega
    · cases items <;> simp [writeItems] at enough
    · cases fields with
      | nil => simp [writeFields] at enough
      | cons field fields => simp [writeFields] at enough
  | succ fuel ih =>
    obtain ⟨readJson, readRest, readPairs⟩ := ih
    refine ⟨fun json rest enough => ?_, fun items rest enough => ?_, fun fields rest enough => ?_⟩
    · cases json with
      | null => rfl
      | bool value => cases value <;> rfl
      | num n => simp [write, read, readDigits_writeDigits n n (le_refl n)]
      | real text => simp [write, read, readChars_writeChars]
      | str text => simp [write, read, readChars_writeChars]
      | arr items => simp [write, read, readRest items rest (by simpa [write] using enough)]
      | obj fields => simp [write, read, readPairs fields rest (by simpa [write] using enough)]
    · cases items with
      | nil => rfl
      | cons item items =>
        simp only [writeItems, List.length_cons, List.length_append] at enough
        have head := readJson item (writeItems items ++ rest) (by omega)
        have tail := readRest items rest (by omega)
        simp [writeItems, readItems, head, tail]
    · cases fields with
      | nil => rfl
      | cons field fields =>
        obtain ⟨key, value⟩ := field
        simp only [writeFields, List.length_cons, List.length_append] at enough
        have head := readJson value (writeFields fields ++ rest) (by omega)
        have tail := readPairs fields rest (by omega)
        simp [writeFields, readFields, readChars_writeChars, head, tail]

/-! ## The codec -/

def toText (json : Json) : String := String.ofList (write json)

def fromText (text : String) : Option Json :=
  match read text.toList.length text.toList with
  | some (json, []) => some json
  | _ => none

theorem fromText_toText (json : Json) : fromText (toText json) = some json := by
  have whole := (read_written (write json).length).1 json [] (le_refl _)
  rw [List.append_nil] at whole
  simp [fromText, toText, whole]

end Sshelter.JsonText
