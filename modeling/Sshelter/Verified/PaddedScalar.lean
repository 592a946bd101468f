import Sshelter.Vault.ShortScalar

/-! # A padded scalar is the same number

A private section as a record of its fields and its bytes.  Padding a short scalar changes no
field but the scalar's leading zeros, and gives the section the padding of an unencrypted
container.
-/

namespace Sshelter.Vault.ShortScalar

open Wire (Bytes)

/-! ## Sections -/

/-- The fields of an ECDSA private section. -/
structure EcdsaSection where
  checkint1 : UInt32
  checkint2 : UInt32
  algorithm : String
  curve : String
  point : Bytes
  scalar : Bytes
  comment : String

/-- The wire form of the fields, without the padding. -/
def EcdsaSection.bytes (s : EcdsaSection) : Bytes :=
  Wire.word s.checkint1.toNat ++ Wire.word s.checkint2.toNat ++ Wire.string (Wire.textBytes s.algorithm) ++
    Wire.string (Wire.textBytes s.curve) ++ Wire.string s.point ++ Wire.string s.scalar ++
    Wire.string (Wire.textBytes s.comment)

/-- Every string of the section is within the limit of the decoder. -/
def EcdsaSection.Within (s : EcdsaSection) (limit : Nat) : Prop :=
  (Wire.textBytes s.algorithm).length ≤ limit ∧ (Wire.textBytes s.curve).length ≤ limit ∧ s.point.length ≤ limit ∧
    s.scalar.length ≤ limit ∧ (Wire.textBytes s.comment).length ≤ limit

/-- The padding 1, 2, 3 and so on. -/
def padding (n : Nat) : Bytes := (List.range' 1 n).map UInt8.ofNat

/-- The number that big-endian bytes stand for. -/
def bigEndian (bytes : Bytes) : Nat := Nat.ofDigits 256 (bytes.map UInt8.toNat).reverse

/-- The top bit of the first byte is clear. -/
def NonNegative (mpint : Bytes) : Prop := ∀ byte, mpint.head? = some byte → byte.toNat < 128

/-- The section is a well-formed ECDSA section whose scalar is non-negative and shorter than the curve's size. -/
structure IsShort (c : SshEncoding) (section_ : Bytes) (blockSize : Nat) (s : EcdsaSection) (size : Nat) : Prop where
  within : s.Within c.reader.maxLength
  curve : scalarSize s.algorithm s.curve = some size
  nonNegative : NonNegative s.scalar
  short : s.scalar.length < size
  padded : ∃ k < blockSize, section_ = s.bytes ++ padding k

/-- The fields off the front of a section. -/
def readSection (c : SshEncoding) (input : Bytes) : Option (EcdsaSection × Bytes) := do
  let (checkint1, reader) ← c.reader.readWord input
  let (checkint2, reader) ← c.reader.readWord reader
  let (algorithm, reader) ← decodeString c reader
  let (curve, reader) ← decodeString c reader
  let (point, reader) ← c.reader.readString reader
  let (scalar, reader) ← c.reader.readString reader
  let (comment, reader) ← decodeString c reader
  some ({ checkint1, checkint2, algorithm, curve, point, scalar, comment }, reader)

/-! ## Reading -/

section Reading

variable {c : SshEncoding} (exact_ : c.reader.Exact)
include exact_

theorem decodeString_eq_some {input rest : Bytes} {text : String} : decodeString c input = some (text, rest) ↔
    (Wire.textBytes text).length ≤ c.reader.maxLength ∧ input = Wire.string (Wire.textBytes text) ++ rest := by
  simp only [decodeString, Option.bind_eq_bind, Option.bind_eq_some_iff, Prod.exists, Option.some.injEq,
    Prod.mk.injEq, Wire.decodeText_eq_some]
  constructor
  · rintro ⟨bytes, left, read, text', rfl, rfl, rfl⟩
    exact exact_.string.mp read
  · exact fun read => ⟨_, _, exact_.string.mpr read, text, rfl, rfl, rfl⟩

theorem readSection_eq_some {input rest : Bytes} {s : EcdsaSection} :
    readSection c input = some (s, rest) ↔ s.Within c.reader.maxLength ∧ input = s.bytes ++ rest := by
  simp only [readSection, Option.bind_eq_bind, Option.bind_eq_some_iff, Prod.exists, Option.some.injEq,
    Prod.mk.injEq, exact_.word, exact_.string, decodeString_eq_some exact_]
  constructor
  · rintro ⟨checkint1, _, rfl, checkint2, _, rfl, algorithm, _, ⟨alg, rfl⟩, curve, _, ⟨cur, rfl⟩, point, _,
      ⟨poi, rfl⟩, scalar, _, ⟨sca, rfl⟩, comment, _, ⟨com, rfl⟩, rfl, rfl⟩
    exact ⟨⟨alg, cur, poi, sca, com⟩, by simp [EcdsaSection.bytes]⟩
  · rintro ⟨⟨alg, cur, poi, sca, com⟩, rfl⟩
    refine ⟨s.checkint1, _, by simp only [EcdsaSection.bytes, List.append_assoc], s.checkint2, _, rfl,
      s.algorithm, _, ⟨alg, rfl⟩, s.curve, _, ⟨cur, rfl⟩, s.point, _, ⟨poi, rfl⟩, s.scalar, _, ⟨sca, rfl⟩,
      s.comment, _, ⟨com, rfl⟩, rfl, rfl⟩

theorem readWord_append (n : UInt32) (rest : Bytes) :
    c.reader.readWord (Wire.word n.toNat ++ rest) = some (n, rest) := exact_.word.mpr rfl

theorem readString_append {bytes : Bytes} (fits : bytes.length ≤ c.reader.maxLength) (rest : Bytes) :
    c.reader.readString (Wire.string bytes ++ rest) = some (bytes, rest) := exact_.string.mpr ⟨fits, rfl⟩

theorem decodeString_append {text : String} (fits : (Wire.textBytes text).length ≤ c.reader.maxLength) (rest : Bytes) :
    decodeString c (Wire.string (Wire.textBytes text) ++ rest) = some (text, rest) :=
  (decodeString_eq_some exact_).mpr ⟨fits, rfl⟩

end Reading

/-! ## Padding -/

theorem countsUp_from (bytes : Bytes) (start : Nat) :
    ((bytes.zipIdx start).all fun (byte, expected) => byte == UInt8.ofNat expected) = true ↔
      bytes = (List.range' start bytes.length).map UInt8.ofNat := by
  induction bytes generalizing start with
  | nil => simp
  | cons byte rest ih =>
    rw [List.zipIdx_cons, List.all_cons, Bool.and_eq_true, beq_iff_eq, ih, List.length_cons, List.range'_succ,
      List.map_cons, List.cons.injEq]

theorem countsUp_iff (bytes : Bytes) : countsUp bytes = true ↔ bytes = padding bytes.length :=
  countsUp_from bytes 1

@[simp] theorem padding_length (n : Nat) : (padding n).length = n := by simp [padding]

/-- How many bytes are missing to whole blocks. -/
def missing (length : Nat) : Nat := (noneBlockSize - length % noneBlockSize) % noneBlockSize

theorem missing_lt (length : Nat) : missing length < noneBlockSize := Nat.mod_lt _ (by decide)

theorem add_missing (length : Nat) : (length + missing length) % noneBlockSize = 0 := by
  simp only [missing, noneBlockSize]
  omega

theorem pushPadding_from (pad : Nat) (out : Bytes) :
    pushPadding (UInt8.ofNat pad) out = out ++ (List.range' pad (missing out.length)).map UInt8.ofNat := by
  induction left : missing out.length generalizing pad out with
  | zero =>
    have whole : out.length % noneBlockSize = 0 := by
      simp only [missing, noneBlockSize] at left ⊢
      omega
    rw [pushPadding, if_neg (by simp [whole])]
    simp
  | succ k ih =>
    have some_ : out.length % noneBlockSize ≠ 0 := by
      intro whole
      rw [missing, whole] at left
      cases left
    have fewer : missing (out ++ [UInt8.ofNat pad]).length = k := by
      simp only [missing, noneBlockSize, List.length_append, List.length_singleton] at left some_ ⊢
      omega
    have next : UInt8.ofNat pad + 1 = UInt8.ofNat (pad + 1) := by
      rw [UInt8.ofNat_add]
      rfl
    rw [pushPadding, if_pos some_, next, ih _ _ fewer, List.range'_succ, List.map_cons, List.append_assoc]
    rfl

theorem pushPadding_eq (out : Bytes) : pushPadding 1 out = out ++ padding (missing out.length) :=
  pushPadding_from 1 out

/-! ## Scalars -/

theorem bigEndian_zeros (n : Nat) (bytes : Bytes) : bigEndian (List.replicate n 0 ++ bytes) = bigEndian bytes := by
  have zeros : (List.replicate n (0 : UInt8)).map UInt8.toNat = List.replicate n 0 := by simp
  rw [bigEndian, List.map_append, zeros, List.reverse_append, List.reverse_replicate,
    Nat.ofDigits_append_replicate_zero]
  rfl

theorem topBit (byte : UInt8) : (byte &&& 0x80 != 0) = false ↔ byte.toNat < 128 := by
  have every : ∀ n : Fin 256, (n.val &&& 128 != 0) = false ↔ n.val < 128 := by decide +kernel
  have here := every ⟨byte.toNat, byte.toNat_lt⟩
  rw [← here]
  simp [← UInt8.toNat_inj]

theorem nonNegative_iff (mpint : Bytes) :
    (mpint.head?.any fun byte => byte &&& 0x80 != 0) = false ↔ NonNegative mpint := by
  cases mpint with
  | nil => simp [NonNegative]
  | cons byte rest => simpa [NonNegative] using topBit byte

theorem scalarSize_le {algorithm curve : String} {size : Nat} (known : scalarSize algorithm curve = some size) :
    size ≤ 66 := by
  unfold scalarSize at known
  split at known
  · cases known
    decide
  · split at known
    · cases known
      decide
    · split at known
      · cases known
        decide
      · cases known

/-! ## The new section -/

def EcdsaSection.withPadded (s : EcdsaSection) (size : Nat) : EcdsaSection :=
  { s with scalar := List.replicate (size - s.scalar.length) 0 ++ s.scalar }

theorem EcdsaSection.withPadded_length {s : EcdsaSection} {size : Nat} (short : s.scalar.length < size) :
    (s.withPadded size).scalar.length = size := by
  simp only [withPadded, List.length_append, List.length_replicate]
  omega

section Writing

variable {c : SshEncoding}

/-- A section that is padded anew can be read. -/
theorem repadded_reads {section_ out : Bytes} {blockSize : Nat} (result : repadded c section_ blockSize = some out) :
    ∃ s rest, readSection c section_ = some (s, rest) := by
  obtain ⟨⟨checkint1, tail⟩, read1, result⟩ := Option.bind_eq_some_iff.mp result
  obtain ⟨⟨checkint2, tail⟩, read2, result⟩ := Option.bind_eq_some_iff.mp result
  obtain ⟨⟨algorithm, tail⟩, read3, result⟩ := Option.bind_eq_some_iff.mp result
  obtain ⟨⟨curve, tail⟩, read4, result⟩ := Option.bind_eq_some_iff.mp result
  obtain ⟨size, _, result⟩ := Option.bind_eq_some_iff.mp result
  obtain ⟨⟨point, tail⟩, read5, result⟩ := Option.bind_eq_some_iff.mp result
  obtain ⟨⟨scalar, tail⟩, read6, result⟩ := Option.bind_eq_some_iff.mp result
  obtain ⟨⟨comment, tail⟩, read7, _⟩ := Option.bind_eq_some_iff.mp result
  refine ⟨{ checkint1, checkint2, algorithm, curve, point, scalar, comment }, tail, ?_⟩
  simp only [readSection, read1, read2, read3, read4, read5, read6, read7, Option.bind_eq_bind, Option.bind_some]

variable (exact_ : c.reader.Exact)
include exact_

omit exact_ in
theorem encodeFields_eq (writes : c.Writes) {s : EcdsaSection} (within : s.Within c.reader.maxLength) :
    encodeFields c s.checkint1 s.checkint2 s.algorithm s.curve s.point s.scalar s.comment = some s.bytes := by
  obtain ⟨algorithm, curve, point, scalar, comment⟩ := within
  simp only [encodeFields, encodeText, writes.word, writes.string _ algorithm, writes.string _ curve,
    writes.string _ point, writes.string _ scalar, writes.string _ comment, Option.bind_eq_bind, Option.bind_some]
  rfl

/-- What becomes of a section that can be read. -/
theorem repadded_bytes (writes : c.Writes) (large : 66 ≤ c.reader.maxLength) {s : EcdsaSection}
    (within : s.Within c.reader.maxLength) (rest : Bytes) (blockSize : Nat) :
    repadded c (s.bytes ++ rest) blockSize = (scalarSize s.algorithm s.curve).bind fun size =>
      if !(rest.length < blockSize && countsUp rest) || (s.scalar.head?.any fun byte => byte &&& 0x80 != 0) ||
          size ≤ s.scalar.length then none
      else some (pushPadding 1 (s.withPadded size).bytes) := by
  obtain ⟨algorithm, curve, point, scalar, comment⟩ := within
  have front : s.bytes ++ rest = Wire.word s.checkint1.toNat ++ (Wire.word s.checkint2.toNat ++
      (Wire.string (Wire.textBytes s.algorithm) ++ (Wire.string (Wire.textBytes s.curve) ++ (Wire.string s.point ++
        (Wire.string s.scalar ++ (Wire.string (Wire.textBytes s.comment) ++ rest)))))) := by
    simp only [EcdsaSection.bytes, List.append_assoc]
  rw [front]
  simp only [repadded, readWord_append exact_, decodeString_append exact_ algorithm,
    decodeString_append exact_ curve, readString_append exact_ point, readString_append exact_ scalar,
    decodeString_append exact_ comment, Option.bind_eq_bind, Option.bind_some]
  cases known : scalarSize s.algorithm s.curve with
  | none => rfl
  | some size =>
    have sizes := scalarSize_le known
    simp only [Option.bind_some]
    split
    · rfl
    · next valid =>
      have short : s.scalar.length < size := by
        simp only [Bool.or_eq_true, decide_eq_true_eq, not_or] at valid
        omega
      have length := EcdsaSection.withPadded_length short
      have padded : (s.withPadded size).Within c.reader.maxLength := ⟨algorithm, curve, point, by omega, comment⟩
      have written := encodeFields_eq writes padded
      simp only [EcdsaSection.withPadded] at written ⊢
      rw [written, Option.bind_some]

theorem repadded_eq_some (writes : c.Writes) (large : 66 ≤ c.reader.maxLength) {section_ out : Bytes} {blockSize : Nat} :
    repadded c section_ blockSize = some out ↔ ∃ s size, IsShort c section_ blockSize s size ∧
      out = (s.withPadded size).bytes ++ padding (missing (s.withPadded size).bytes.length) := by
  constructor
  · intro result
    obtain ⟨s, rest, read⟩ := repadded_reads result
    obtain ⟨within, rfl⟩ := (readSection_eq_some exact_).mp read
    rw [repadded_bytes exact_ writes large within, Option.bind_eq_some_iff] at result
    obtain ⟨size, known, result⟩ := result
    rw [Option.ite_none_left_eq_some] at result
    obtain ⟨valid, result⟩ := result
    simp only [Bool.or_eq_true, Bool.not_eq_true', decide_eq_true_eq, not_or, Bool.not_eq_false,
      Bool.and_eq_true, Bool.not_eq_true, Nat.not_le] at valid
    obtain ⟨⟨⟨fewer, counts⟩, sign⟩, short⟩ := valid
    refine ⟨s, size, ⟨within, known, (nonNegative_iff _).mp sign, short, rest.length, fewer, ?_⟩, ?_⟩
    · rw [← (countsUp_iff rest).mp counts]
    · rw [← pushPadding_eq]
      exact (Option.some.inj result).symm
  · rintro ⟨s, size, ⟨within, known, sign, short, k, fewer, rfl⟩, rfl⟩
    have counts : countsUp (padding k) = true := (countsUp_iff _).mpr (by rw [padding_length])
    rw [repadded_bytes exact_ writes large within, known, Option.bind_some, ← pushPadding_eq]
    simp [fewer, counts, (nonNegative_iff _).mpr sign, short]

end Writing

/-- A section is padded anew exactly when it is a well-formed ECDSA section with a short non-negative scalar; what
is written is read as the same fields, with a scalar of the curve's size that is the same number, and is padded with
1, 2, 3 to the next multiple of eight bytes. -/
theorem short_scalars_are_padded (c : SshEncoding) (reads : c.reader.Exact) (writes : c.Writes)
    (large : 66 ≤ c.reader.maxLength) (section_ : Bytes) (blockSize : Nat) :
    ((repadded c section_ blockSize).isSome = true ↔ ∃ s size, IsShort c section_ blockSize s size) ∧
      ∀ out, repadded c section_ blockSize = some out → ∃ s size scalar k, IsShort c section_ blockSize s size ∧
        readSection c out = some ({ s with scalar }, padding k) ∧ scalar.length = size ∧
        bigEndian scalar = bigEndian s.scalar ∧ k < 8 ∧ out.length % 8 = 0 := by
  constructor
  · simp only [Option.isSome_iff_exists, repadded_eq_some reads writes large]
    constructor
    · rintro ⟨_, s, size, short, _⟩
      exact ⟨s, size, short⟩
    · rintro ⟨s, size, short⟩
      exact ⟨_, s, size, short, rfl⟩
  · intro out result
    obtain ⟨s, size, short, rfl⟩ := (repadded_eq_some reads writes large).mp result
    have length := EcdsaSection.withPadded_length short.short
    have sizes := scalarSize_le short.curve
    obtain ⟨algorithm, curve, point, _, comment⟩ := short.within
    have within : (s.withPadded size).Within c.reader.maxLength :=
      ⟨algorithm, curve, point, by omega, comment⟩
    refine ⟨s, size, (s.withPadded size).scalar, missing (s.withPadded size).bytes.length, short, ?_, length,
      bigEndian_zeros _ _, missing_lt _, ?_⟩
    · exact (readSection_eq_some reads).mpr ⟨within, rfl⟩
    · rw [List.length_append, padding_length]
      exact add_missing _

namespace Sample

/-- An encoding that takes strings below one mebibyte. -/
def encoding : SshEncoding where
  reader := Wire.strict 1048575
  encodeWord n := some (Wire.word n.toNat)
  encodeString s := if s.length ≤ 1048575 then some (Wire.string s) else none

theorem encoding_writes : encoding.Writes where
  word _ := rfl
  string _ fits := if_pos fits

def key : EcdsaSection where
  checkint1 := 7
  checkint2 := 7
  algorithm := "ecdsa-sha2-nistp256"
  curve := "nistp256"
  point := [4, 1, 2]
  scalar := [1, 2, 3]
  comment := "key"

theorem key_isShort : IsShort encoding (key.bytes ++ padding 3) 8 key 32 where
  within := by
    unfold EcdsaSection.Within
    decide +kernel
  curve := by decide +kernel
  nonNegative := by
    intro byte head
    cases head
    decide
  short := by decide
  padded := ⟨3, by decide, rfl⟩

end Sample

theorem sample_scalar_is_padded :
    (repadded Sample.encoding (Sample.key.bytes ++ padding 3) 8).isSome = true ∧
      ∀ out, repadded Sample.encoding (Sample.key.bytes ++ padding 3) 8 = some out →
        ∃ s size scalar k, IsShort Sample.encoding (Sample.key.bytes ++ padding 3) 8 s size ∧
          readSection Sample.encoding out = some ({ s with scalar }, padding k) ∧ scalar.length = size ∧
          bigEndian scalar = bigEndian s.scalar ∧ k < 8 ∧ out.length % 8 = 0 := by
  have padded := short_scalars_are_padded Sample.encoding (Wire.strict_exact (by decide)) Sample.encoding_writes
    (by decide) (Sample.key.bytes ++ padding 3) 8
  exact ⟨padded.1.mpr ⟨Sample.key, 32, Sample.key_isShort⟩, padded.2⟩

end Sshelter.Vault.ShortScalar
