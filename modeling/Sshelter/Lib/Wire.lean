import Mathlib

/-! # Length-prefixed wire format

The byte, 32-bit word and string types of the secure shell wire format: a string is
its length as a big-endian word followed by its bytes.  `Reader` collects the three
primitive decoders of an implementation together with the longest string it accepts;
`Reader.Exact` says that each decoder takes exactly the bytes of the value it returns
off the front of the input.  `strict` is such an implementation.
-/

namespace Sshelter.Wire

abbrev Bytes := List UInt8

/-! ## Encoding -/

/-- The four bytes of a word, most significant first; larger numbers wrap. -/
def word (n : Nat) : Bytes :=
  [UInt8.ofNat (n / 16777216), UInt8.ofNat (n / 65536), UInt8.ofNat (n / 256), UInt8.ofNat n]

/-- A string: its length, then its bytes. -/
def string (s : Bytes) : Bytes := word s.length ++ s

/-- The UTF-8 bytes of a text. -/
def textBytes (s : String) : Bytes := s.toByteArray.data.toList

/-- The text whose UTF-8 bytes are given, if they are valid. -/
def decodeText (bytes : Bytes) : Option String := String.fromUTF8? ⟨bytes.toArray⟩

theorem decodeText_eq_some {bytes : Bytes} {s : String} :
    decodeText bytes = some s ↔ bytes = textBytes s := by
  unfold decodeText String.fromUTF8?
  constructor
  · intro h
    split at h
    · cases h
      rfl
    · cases h
  · intro h
    subst h
    have hbytes : (⟨(textBytes s).toArray⟩ : ByteArray) = s.toByteArray := rfl
    rw [hbytes]
    rw [dif_pos s.isValidUTF8]
    rfl

/-! ## Decoding -/

/-- The primitive decoders of an implementation.  Each returns the value and the input left. -/
structure Reader where
  /-- The longest string accepted. -/
  maxLength : Nat
  readByte : Bytes → Option (UInt8 × Bytes)
  readWord : Bytes → Option (UInt32 × Bytes)
  readString : Bytes → Option (Bytes × Bytes)

/-- Every decoder takes exactly the encoding of its result off the input, and refuses only
inputs that do not start with such an encoding. -/
structure Reader.Exact (r : Reader) : Prop where
  byte : ∀ {input b rest}, r.readByte input = some (b, rest) ↔ input = b :: rest
  word : ∀ {input n rest}, r.readWord input = some (n, rest) ↔ input = Wire.word n.toNat ++ rest
  string : ∀ {input s rest}, r.readString input = some (s, rest) ↔
    s.length ≤ r.maxLength ∧ input = Wire.string s ++ rest

/-- The number four bytes stand for. -/
def wordValue (a b c d : UInt8) : Nat :=
  a.toNat * 16777216 + b.toNat * 65536 + c.toNat * 256 + d.toNat

theorem wordValue_lt (a b c d : UInt8) : wordValue a b c d < 4294967296 := by
  have ha := a.toNat_lt
  have hb := b.toNat_lt
  have hc := c.toNat_lt
  have hd := d.toNat_lt
  unfold wordValue
  omega

theorem word_wordValue (a b c d : UInt8) : word (wordValue a b c d) = [a, b, c, d] := by
  have ha := a.toNat_lt
  have hb := b.toNat_lt
  have hc := c.toNat_lt
  have hd := d.toNat_lt
  -- each byte is its quotient modulo 256
  have byte : ∀ (x : UInt8) (n : Nat), n % 256 = x.toNat → UInt8.ofNat n = x := by
    intro x n h
    apply UInt8.toNat_inj.mp
    rw [UInt8.toNat_ofNat']
    exact h
  unfold word wordValue
  rw [byte a _ (by omega), byte b _ (by omega), byte c _ (by omega), byte d _ (by omega)]

/-- A word below `2 ^ 32` is recovered from its bytes. -/
theorem wordValue_word {n : Nat} (h : n < 4294967296) :
    wordValue (UInt8.ofNat (n / 16777216)) (UInt8.ofNat (n / 65536)) (UInt8.ofNat (n / 256))
      (UInt8.ofNat n) = n := by
  simp only [wordValue, UInt8.toNat_ofNat']
  omega

def takeByte : Bytes → Option (UInt8 × Bytes)
  | [] => none
  | b :: rest => some (b, rest)

def takeWord : Bytes → Option (UInt32 × Bytes)
  | a :: b :: c :: d :: rest => some (UInt32.ofNat (wordValue a b c d), rest)
  | _ => none

/-- A string of at most `limit` bytes. -/
def takeString (limit : Nat) : Bytes → Option (Bytes × Bytes)
  | a :: b :: c :: d :: rest =>
    let length := wordValue a b c d
    if length ≤ limit ∧ length ≤ rest.length then some (rest.take length, rest.drop length) else none
  | _ => none

/-- A decoder of strings of at most `limit` bytes. -/
def strict (limit : Nat) : Reader where
  maxLength := limit
  readByte := takeByte
  readWord := takeWord
  readString := takeString limit

theorem takeWord_eq_some {input : Bytes} {n : UInt32} {rest : Bytes} :
    takeWord input = some (n, rest) ↔ input = word n.toNat ++ rest := by
  constructor
  · intro h
    unfold takeWord at h
    split at h
    next a b c d tail =>
      cases h
      have hvalue : (UInt32.ofNat (wordValue a b c d)).toNat = wordValue a b c d := by
        rw [UInt32.toNat_ofNat']
        exact Nat.mod_eq_of_lt (wordValue_lt a b c d)
      rw [hvalue, word_wordValue]
      rfl
    next => cases h
  · intro h
    subst h
    have hvalue := wordValue_word n.toNat_lt
    simp only [word, List.cons_append, List.nil_append, takeWord, hvalue, UInt32.ofNat_toNat]

theorem takeString_eq_some {limit : Nat} (hlimit : limit < 4294967296) {input s rest : Bytes} :
    takeString limit input = some (s, rest) ↔ s.length ≤ limit ∧ input = string s ++ rest := by
  constructor
  · intro h
    unfold takeString at h
    split at h
    next a b c d tail =>
      simp only [Option.ite_none_right_eq_some, Option.some.injEq, Prod.mk.injEq] at h
      obtain ⟨⟨hle, hfits⟩, hs, hrest⟩ := h
      have hlength : s.length = wordValue a b c d := by
        rw [← hs, List.length_take]
        omega
      have hsplit : tail = s ++ rest := by
        rw [← hs, ← hrest, List.take_append_drop]
      refine ⟨by omega, ?_⟩
      rw [string, hlength, word_wordValue, hsplit]
      rfl
    next => cases h
  · rintro ⟨hle, rfl⟩
    have hvalue := wordValue_word (show s.length < 4294967296 by omega)
    simp only [string, word, List.cons_append, List.nil_append, takeString, hvalue]
    have hfits : s.length ≤ limit ∧ s.length ≤ (s ++ rest).length := by
      refine ⟨hle, ?_⟩
      simp only [List.length_append]
      omega
    rw [if_pos hfits, List.take_left, List.drop_left]

theorem strict_exact {limit : Nat} (hlimit : limit < 4294967296) : (strict limit).Exact where
  byte := by
    intro input b rest
    cases input with
    | nil => simp [strict, takeByte]
    | cons a tail => simp [strict, takeByte]
  word := takeWord_eq_some
  string := takeString_eq_some hlimit

end Sshelter.Wire
