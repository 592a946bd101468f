import Sshelter.Lib.BTreeMap
import Sshelter.Lib.Json

/-! # Chain keys and sealing

`crypto.rs` and the identity formats it shares with `slot_rules.rs` and
`records_v3`.  The cipher, the keyed hash, the JSON text codec and the OpenSSH
public-key parser are third-party crates: they enter as a `Primitives` value, and
`Primitives.Ideal` names what the code relies on.  Text that the code holds as
base64 (nonce, ciphertext, the 32-byte chain key) is that base64 text here, and a
nonce the code draws from the system is an explicit argument.
-/

namespace Sshelter.Sync

/-! ## Identity formats -/

def isLowerHex (c : Char) : Bool := c.isDigit || ('a' ≤ c && c ≤ 'f')

/-- Lowercase hex text of an exact length. -/
def isHexText (length : Nat) (s : String) : Bool := s.length == length && s.toList.all isLowerHex

/-- Chain ids and bearer tokens: 64 hex characters. -/
def isChainId (s : String) : Bool := isHexText 64 s

/-- Device and key slot ids: 32 hex characters. -/
def isSlotId (s : String) : Bool := isHexText 32 s

/-- Host and group ids: 16 hex characters. -/
def isHostId (s : String) : Bool := isHexText 16 s

def base64Alphabet : List Char :=
  "ABCDEFGHIJKLMNOPQRSTUVWXYZabcdefghijklmnopqrstuvwxyz0123456789+/".toList

/-- Standard base64 text of exactly 32 bytes: 43 digits, the last carrying only four
significant bits, and one padding character. -/
def isKeyBase64 (s : String) : Bool :=
  match s.toList.reverse with
  | '=' :: last :: digits =>
    digits.length == 42 && digits.all base64Alphabet.contains &&
      base64Alphabet.idxOf last % 4 == 0 && base64Alphabet.contains last
  | _ => false

/-! ## Third-party primitives -/

/-- A parsed OpenSSH public key: its algorithm name, SHA-256 fingerprint text and key data. -/
structure PublicKey where
  algorithm : String
  fingerprint : String
  keyData : String
deriving DecidableEq, Repr

/-- The third-party functions the sync code calls. -/
structure Primitives where
  /-- `hex(HMAC-SHA256(key, message))`. -/
  hmacHex : (encKey message : String) → String
  /-- XChaCha20-Poly1305 encryption: key, nonce, associated data, plaintext. -/
  encrypt : (encKey nonce aad plaintext : String) → String
  /-- The matching decryption; nothing when the text does not authenticate. -/
  decrypt : (encKey nonce aad ciphertext : String) → Option String
  /-- `serde_json::to_writer`. -/
  toText : Json → String
  /-- `serde_json::from_slice`. -/
  fromText : String → Option Json
  /-- `ssh_key::PublicKey::from_openssh`. -/
  fromOpenssh : String → Option PublicKey

/-- Hashed identities are lowercase hex text. -/
def Primitives.HexHashes (P : Primitives) : Prop :=
  ∀ encKey m, (P.hmacHex encKey m).toList.all isLowerHex

/-- What the code relies on: collision-free keyed hashes in hex, decryption undoing
encryption, and a JSON codec that reads back what it wrote.  The codec law is stated for the
whole type of values, which is wider than that of `serde_json`: an object with a field twice
or a number above 64 bits is no value there, and no code writes one. -/
structure Primitives.Ideal (P : Primitives) : Prop where
  hmac_injective : ∀ encKey m m', P.hmacHex encKey m = P.hmacHex encKey m' → m = m'
  hmac_hex : P.HexHashes
  decrypt_encrypt : ∀ encKey nonce aad text,
    P.decrypt encKey nonce aad (P.encrypt encKey nonce aad text) = some text
  fromText_toText : ∀ json, P.fromText (P.toText json) = some json

/-! ## Chain keys -/

structure ChainKeys where
  chainId : String
  authToken : String
  /-- The 32-byte key, as its standard base64 text. -/
  encKey : String
deriving DecidableEq, Repr

/-- `ChainKeys::from_parts`. -/
def ChainKeys.fromParts (chainId authToken encKey : String) : Option ChainKeys :=
  if isChainId chainId && isChainId authToken && isKeyBase64 encKey then
    some { chainId, authToken, encKey }
  else none

/-- An encrypted record body. -/
structure Sealed where
  idHash : String
  nonce : String
  ciphertext : String
deriving DecidableEq, Repr

section
variable (P : Primitives)

/-- The relay-visible identity of a record. -/
def idHash (keys : ChainKeys) (kind id : String) : String :=
  P.hmacHex keys.encKey (kind ++ "\n" ++ id)

/-- The associated data binds the chain, the kind and the hashed identity. -/
def aad (keys : ChainKeys) (kind hash : String) : String :=
  keys.chainId ++ "\n" ++ kind ++ "\n" ++ hash

def cryptoSeal (keys : ChainKeys) (kind id nonce plaintext : String) : Sealed :=
  let hash := idHash P keys kind id
  { idHash := hash, nonce, ciphertext := P.encrypt keys.encKey nonce (aad keys kind hash) plaintext }

def cryptoOpen (keys : ChainKeys) (kind hash : String) (sealed : Sealed) : Option String :=
  P.decrypt keys.encKey sealed.nonce (aad keys kind hash) sealed.ciphertext

end

/-! ## Separators

Cache keys and hashed messages join two strings with a separator.  The left part of
every such join in the code is one of the fixed kind names, so the join can be undone. -/

/-- Joining on a character that occurs in neither left part is injective. -/
theorem join_injective {separator : Char} {a b a' b' : String}
    (free : separator ∉ a.toList) (free' : separator ∉ a'.toList)
    (same : a ++ String.singleton separator ++ b = a' ++ String.singleton separator ++ b') :
    a = a' ∧ b = b' := by
  have lists : a.toList ++ separator :: b.toList = a'.toList ++ separator :: b'.toList := by
    simpa using congrArg String.toList same
  have split : a.toList = a'.toList ∧ b.toList = b'.toList := by
    clear same
    generalize a.toList = xs at lists free
    generalize a'.toList = ys at lists free'
    induction xs generalizing ys with
    | nil =>
      cases ys with
      | nil => exact ⟨rfl, (List.cons.inj lists).2⟩
      | cons y ys =>
        obtain ⟨rfl, _⟩ := List.cons.inj lists
        exact absurd List.mem_cons_self free'
    | cons x xs ih =>
      cases ys with
      | nil =>
        obtain ⟨rfl, _⟩ := List.cons.inj lists
        exact absurd List.mem_cons_self free
      | cons y ys =>
        simp only [List.cons_append, List.cons.injEq, List.mem_cons, not_or] at lists free free'
        obtain ⟨left, right⟩ := ih free.2 ys lists.2 free'.2
        exact ⟨by rw [lists.1, left], right⟩
  exact ⟨String.toList_injective split.1, String.toList_injective split.2⟩

section
variable {P : Primitives}

@[simp] theorem cryptoSeal_idHash (keys : ChainKeys) (kind id nonce text : String) :
    (cryptoSeal P keys kind id nonce text).idHash = idHash P keys kind id := rfl

@[simp] theorem cryptoSeal_nonce (keys : ChainKeys) (kind id nonce text : String) :
    (cryptoSeal P keys kind id nonce text).nonce = nonce := rfl

theorem cryptoOpen_cryptoSeal (ideal : P.Ideal) (keys : ChainKeys) (kind id nonce text : String) :
    cryptoOpen P keys kind (idHash P keys kind id) (cryptoSeal P keys kind id nonce text) = some text :=
  ideal.decrypt_encrypt _ _ _ _

/-- Two records of one chain share a hashed identity only when they are the same record. -/
theorem idHash_injective (ideal : P.Ideal) {keys : ChainKeys} {kind kind' id id' : String}
    (free : '\n' ∉ kind.toList) (free' : '\n' ∉ kind'.toList)
    (same : idHash P keys kind id = idHash P keys kind' id') : kind = kind' ∧ id = id' :=
  join_injective free free' (ideal.hmac_injective _ _ _ same)

/-- A hashed identity holds no cache-key separator. -/
theorem colon_not_mem_idHash (hex : P.HexHashes) (keys : ChainKeys) (kind id : String) :
    ':' ∉ (idHash P keys kind id).toList := by
  intro member
  have digit := List.all_eq_true.mp (hex keys.encKey (kind ++ "\n" ++ id)) ':' member
  exact absurd digit (by decide)

end

end Sshelter.Sync
