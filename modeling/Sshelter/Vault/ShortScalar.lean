import Sshelter.Lib.Wire

/-! # Short ECDSA scalars

`vault/short_scalar.rs`: OpenSSH leaves leading zero bytes out of an ECDSA private scalar and
`ssh-key` wants exactly the curve's size, so the private section is taken apart and written
anew with the scalar padded.  The decoders and encoders of `ssh-encoding` enter as a value.
-/

namespace Sshelter.Vault.ShortScalar

open Wire (Bytes)

/-- The functions of `ssh-encoding` that the section is read and written with. -/
structure SshEncoding where
  reader : Wire.Reader
  encodeWord : UInt32 → Option Bytes
  encodeString : Bytes → Option Bytes

/-- Words and strings within the limit of the decoder are written in the wire format. -/
structure SshEncoding.Writes (c : SshEncoding) : Prop where
  word : ∀ n, c.encodeWord n = some (Wire.word n.toNat)
  string : ∀ s, s.length ≤ c.reader.maxLength → c.encodeString s = some (Wire.string s)

variable (c : SshEncoding)

/-- `String::decode`. -/
def decodeString (input : Bytes) : Option (String × Bytes) := do
  let (bytes, rest) ← c.reader.readString input
  let text ← Wire.decodeText bytes
  some (text, rest)

def encodeText (text : String) : Option Bytes := c.encodeString (Wire.textBytes text)

/-- The fixed length of each curve's scalar. -/
def scalarSize (algorithm curve : String) : Option Nat :=
  if algorithm = "ecdsa-sha2-nistp256" ∧ curve = "nistp256" then some 32
  else if algorithm = "ecdsa-sha2-nistp384" ∧ curve = "nistp384" then some 48
  else if algorithm = "ecdsa-sha2-nistp521" ∧ curve = "nistp521" then some 66
  else none

/-- `Cipher::None.block_size()`. -/
def noneBlockSize : Nat := 8

/-- The bytes are 1, 2, 3 and so on; the counter is a byte and wraps. -/
def countsUp (bytes : Bytes) : Bool := (bytes.zipIdx 1).all fun (byte, expected) => byte == UInt8.ofNat expected

/-- The loop that pads a section to whole blocks of an unencrypted container. -/
def pushPadding (pad : UInt8) (out : Bytes) : Bytes :=
  if out.length % noneBlockSize ≠ 0 then pushPadding (pad + 1) (out ++ [pad]) else out
termination_by (noneBlockSize - out.length % noneBlockSize) % noneBlockSize
decreasing_by
  simp only [noneBlockSize, List.length_append, List.length_singleton] at *
  omega

/-- The fields of the new section, one after the other. -/
def encodeFields (checkint1 checkint2 : UInt32) (algorithm curve : String) (point padded : Bytes) (comment : String) :
    Option Bytes := do
  let out ← c.encodeWord checkint1
  let out := out ++ (← c.encodeWord checkint2)
  let out := out ++ (← encodeText c algorithm)
  let out := out ++ (← encodeText c curve)
  let out := out ++ (← c.encodeString point)
  let out := out ++ (← c.encodeString padded)
  some (out ++ (← encodeText c comment))

/-- The plaintext of a private section whose ECDSA scalar is shorter than the curve's size, with the scalar padded
with zeros and the padding of an unencrypted container. -/
def repadded (section_ : Bytes) (blockSize : Nat) : Option Bytes := do
  let (checkint1, reader) ← c.reader.readWord section_
  let (checkint2, reader) ← c.reader.readWord reader
  let (algorithm, reader) ← decodeString c reader
  let (curve, reader) ← decodeString c reader
  let size ← scalarSize algorithm curve
  let (point, reader) ← c.reader.readString reader
  let (scalar, reader) ← c.reader.readString reader
  let (comment, reader) ← decodeString c reader
  let paddingIsValid := reader.length < blockSize && countsUp reader
  -- an mpint whose first byte has its top bit set is negative
  let negative := scalar.head?.any fun byte => byte &&& 0x80 != 0
  if !paddingIsValid || negative || size ≤ scalar.length then none
  else
    let padded := List.replicate (size - scalar.length) 0 ++ scalar
    let out ← encodeFields c checkint1 checkint2 algorithm curve point padded comment
    some (pushPadding 1 out)

end Sshelter.Vault.ShortScalar
