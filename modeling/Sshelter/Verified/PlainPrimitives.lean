import Sshelter.Lib.JsonText
import Sshelter.Verified.Opening

/-! # Transparent primitives

A computable instance of the third-party functions with every property the code
relies on: hashing writes the message in hex, and a ciphertext shows its key,
nonce and associated data in front of the plaintext.  It makes the assumptions of
`Primitives.Ideal` concrete and lets a merge be evaluated.
-/

namespace Sshelter.Sync

/-! ## Hex text -/

def hexDigit (n : Nat) : Char := if n < 10 then Char.ofNat (48 + n) else Char.ofNat (87 + n)

/-- The six hex digits of a code point. -/
def hexChar (c : Char) : List Char :=
  [c.toNat / 16 ^ 5 % 16, c.toNat / 16 ^ 4 % 16, c.toNat / 16 ^ 3 % 16, c.toNat / 16 ^ 2 % 16,
    c.toNat / 16 % 16, c.toNat % 16].map hexDigit

def hexText (s : String) : String := String.ofList (s.toList.flatMap hexChar)

theorem hexDigit_injective {a b : Nat} (boundA : a < 16) (boundB : b < 16)
    (same : hexDigit a = hexDigit b) : a = b := by
  have all : ∀ a < 16, ∀ b < 16, hexDigit a = hexDigit b → a = b := by decide
  exact all a boundA b boundB same

theorem isLowerHex_hexDigit {n : Nat} (bound : n < 16) : isLowerHex (hexDigit n) = true := by
  have all : ∀ n < 16, isLowerHex (hexDigit n) = true := by decide
  exact all n bound

/-- Code points end at `0x10ffff`. -/
theorem toNat_lt_of_valid (c : Char) : c.toNat < 0x110000 := by
  have valid := c.valid
  simp only [UInt32.isValidChar, Nat.isValidChar] at valid
  simp only [Char.toNat]
  omega

theorem hexChar_injective {a b : Char} (same : hexChar a = hexChar b) : a = b := by
  have digits := fun x => Nat.mod_lt x (show 16 > 0 by decide)
  simp only [hexChar, List.map_cons, List.map_nil, List.cons.injEq, and_true] at same
  obtain ⟨d5, d4, d3, d2, d1, d0⟩ := same
  have e5 := hexDigit_injective (digits _) (digits _) d5
  have e4 := hexDigit_injective (digits _) (digits _) d4
  have e3 := hexDigit_injective (digits _) (digits _) d3
  have e2 := hexDigit_injective (digits _) (digits _) d2
  have e1 := hexDigit_injective (digits _) (digits _) d1
  have e0 := hexDigit_injective (digits _) (digits _) d0
  have boundA := toNat_lt_of_valid a
  have boundB := toNat_lt_of_valid b
  have codes : a.toNat = b.toNat := by omega
  exact Char.toNat_inj.mp codes

theorem hexChars_injective (xs ys : List Char) (same : xs.flatMap hexChar = ys.flatMap hexChar) :
    xs = ys := by
  induction xs generalizing ys with
  | nil =>
    cases ys with
    | nil => rfl
    | cons y ys => simp [hexChar] at same
  | cons x xs ih =>
    cases ys with
    | nil => simp [hexChar] at same
    | cons y ys =>
      simp only [List.flatMap_cons] at same
      obtain ⟨heads, tails⟩ := List.append_inj same (by simp [hexChar])
      rw [hexChar_injective heads, ih ys tails]

/-! ## The instance -/

/-- The text in front of a plaintext. -/
def plainHeader (encKey nonce aad : String) : List Char :=
  (encKey ++ "\n" ++ nonce ++ "\n" ++ aad ++ "\n").toList

def plainDecrypt (encKey nonce aad ciphertext : String) : Option String :=
  let header := plainHeader encKey nonce aad
  if ciphertext.toList.take header.length = header then
    some (String.ofList (ciphertext.toList.drop header.length))
  else none

/-- `algorithm key` is a public key whose fingerprint shows its key data. -/
def plainOpenssh (line : String) : Option PublicKey :=
  match line.toList.span (· != ' ') with
  | (algorithm, _ :: data) =>
    some
      { algorithm := String.ofList algorithm, fingerprint := "SHA256:" ++ String.ofList data
        keyData := String.ofList data }
  | _ => none

def plainPrimitives : Primitives where
  hmacHex _ message := hexText message
  encrypt encKey nonce aad plaintext := String.ofList (plainHeader encKey nonce aad ++ plaintext.toList)
  decrypt := plainDecrypt
  toText := JsonText.toText
  fromText := JsonText.fromText
  fromOpenssh := plainOpenssh

theorem plainPrimitives_hexHashes : plainPrimitives.HexHashes := by
  intro encKey message
  simp only [plainPrimitives, hexText, String.toList_ofList, List.all_eq_true, List.mem_flatMap]
  rintro digit ⟨c, _, member⟩
  obtain ⟨n, among, rfl⟩ := List.mem_map.mp member
  refine isLowerHex_hexDigit ?_
  simp only [List.mem_cons, List.not_mem_nil, or_false] at among
  omega

theorem plainPrimitives_ideal : plainPrimitives.Ideal where
  hmac_injective encKey m m' same := by
    have chars : m.toList.flatMap hexChar = m'.toList.flatMap hexChar := by
      simpa [plainPrimitives, hexText] using congrArg String.toList same
    exact String.toList_injective (hexChars_injective _ _ chars)
  hmac_hex := plainPrimitives_hexHashes
  decrypt_encrypt encKey nonce aad text := by simp [plainPrimitives, plainDecrypt]
  fromText_toText := JsonText.fromText_toText

/-! ## Tabulated primitives

An instance for evaluating a merge on given rows: hashes and plaintexts are looked up by
short names, and a ciphertext is the nonce followed by the name of its plaintext. -/

def tablePrimitives (hashes : List (String × String)) (texts : List (String × Json)) : Primitives where
  hmacHex _ message := (hashes.lookup message).getD ""
  encrypt _ nonce _ plaintext := nonce ++ plaintext
  decrypt _ nonce _ ciphertext := (texts.find? fun entry => nonce ++ entry.1 == ciphertext).map (·.1)
  toText json := ((texts.find? fun entry => entry.2 = json).map (·.1)).getD ""
  fromText name := texts.lookup name
  fromOpenssh := plainOpenssh

theorem tablePrimitives_hexHashes {hashes : List (String × String)} {texts : List (String × Json)}
    (hex : ∀ entry ∈ hashes, entry.2.toList.all isLowerHex = true) :
    (tablePrimitives hashes texts).HexHashes := by
  intro encKey message
  simp only [tablePrimitives]
  induction hashes with
  | nil => rfl
  | cons entry rest ih =>
    obtain ⟨name, hash⟩ := entry
    simp only [List.mem_cons, forall_eq_or_imp] at hex
    by_cases here : message = name
    · simp [List.lookup, here, hex.1]
    · have other : (message == name) = false := by simp [here]
      simpa [List.lookup, other] using ih hex.2

/-! ## Named texts

The transparent instance with short names for the hashes and plaintexts of a sample: every
other value is written in full, and a ciphertext is the nonce followed by the plaintext. -/

def namedDecrypt (nonce ciphertext : String) : Option String :=
  if ciphertext.toList.take nonce.toList.length = nonce.toList then
    some (String.ofList (ciphertext.toList.drop nonce.toList.length))
  else none

def namedPrimitives (hashes : List (String × String)) (texts : List (String × Json)) : Primitives where
  hmacHex _ message := (hashes.lookup message).getD (hexText message)
  encrypt _ nonce _ plaintext := String.ofList (nonce.toList ++ plaintext.toList)
  decrypt _ nonce _ ciphertext := namedDecrypt nonce ciphertext
  toText json := ((texts.find? fun entry => entry.2 = json).map (·.1)).getD (JsonText.toText json)
  fromText text := (texts.lookup text).or (JsonText.fromText text)
  fromOpenssh := plainOpenssh

theorem mem_of_lookup {α : Type} {entries : List (String × α)} {key : String} {value : α}
    (found : entries.lookup key = some value) : (key, value) ∈ entries := by
  obtain ⟨before, after, rfl, _⟩ := List.lookup_eq_some_iff.mp found
  simp

theorem lookup_of_mem {α : Type} {entries : List (String × α)} (apart : (entries.map Prod.fst).Nodup)
    {key : String} {value : α} (member : (key, value) ∈ entries) : entries.lookup key = some value := by
  induction entries with
  | nil => cases member
  | cons entry rest ih =>
    obtain ⟨name, held⟩ := entry
    simp only [List.map_cons, List.nodup_cons] at apart
    cases member with
    | head => simp [List.lookup]
    | tail _ later =>
      have other : (key == name) = false := by
        simp only [beq_eq_false_iff_ne, ne_eq]
        rintro rfl
        exact apart.1 (List.mem_map.mpr ⟨_, later, rfl⟩)
      simp only [List.lookup, other]
      exact ih apart.2 later

/-- The names differ from one another and from what the transparent instance writes. -/
structure NamesApart (hashes : List (String × String)) (texts : List (String × Json)) : Prop where
  digests : (hashes.map Prod.snd).Nodup
  hex : ∀ entry ∈ hashes, entry.2.toList.all isLowerHex = true
  short : ∀ entry ∈ hashes, entry.2.toList.length % 6 ≠ 0
  names : (texts.map Prod.fst).Nodup
  named : ∀ entry ∈ texts, JsonText.fromText entry.1 = none

section
variable {hashes : List (String × String)} {texts : List (String × Json)}

theorem hexText_length (message : String) : (hexText message).toList.length % 6 = 0 := by
  simp only [hexText, String.toList_ofList]
  induction message.toList with
  | nil => rfl
  | cons c rest ih =>
    simp only [List.flatMap_cons, List.length_append]
    have six : (hexChar c).length = 6 := rfl
    omega

theorem namedPrimitives_ideal (apart : NamesApart hashes texts) : (namedPrimitives hashes texts).Ideal where
  hmac_injective encKey m m' same := by
    simp only [namedPrimitives] at same
    cases found : hashes.lookup m with
    | none =>
      cases found' : hashes.lookup m' with
      | none =>
        rw [found, found'] at same
        exact plainPrimitives_ideal.hmac_injective encKey m m' same
      | some hash =>
        rw [found, found'] at same
        have short := apart.short _ (mem_of_lookup found')
        rw [← show hexText m = hash from same, hexText_length] at short
        exact absurd rfl short
    | some hash =>
      cases found' : hashes.lookup m' with
      | none =>
        rw [found, found'] at same
        have short := apart.short _ (mem_of_lookup found)
        rw [show hash = hexText m' from same, hexText_length] at short
        exact absurd rfl short
      | some hash' =>
        rw [found, found'] at same
        obtain rfl : hash = hash' := same
        have pairs := List.inj_on_of_nodup_map apart.digests (mem_of_lookup found) (mem_of_lookup found') rfl
        exact congrArg Prod.fst pairs
  hmac_hex := by
    intro encKey message
    simp only [namedPrimitives]
    cases found : hashes.lookup message with
    | none => exact plainPrimitives_hexHashes encKey message
    | some hash => exact apart.hex _ (mem_of_lookup found)
  decrypt_encrypt encKey nonce aad text := by simp [namedPrimitives, namedDecrypt]
  fromText_toText json := by
    simp only [namedPrimitives]
    cases found : texts.find? fun entry => entry.2 = json with
    | some entry =>
      have named := lookup_of_mem apart.names (List.mem_of_find?_eq_some found)
      have same : entry.2 = json := by simpa using List.find?_some found
      simp [named, same]
    | none =>
      have unnamed : texts.lookup (JsonText.toText json) = none := by
        by_contra held
        obtain ⟨other, found⟩ := Option.ne_none_iff_exists'.mp held
        have unread := apart.named _ (mem_of_lookup found)
        rw [JsonText.fromText_toText] at unread
        cases unread
      simp [unnamed, JsonText.fromText_toText]

end

/-! ## A sample chain -/

namespace Sample

def chainId : String := "aaaaaaaaaaaaaaaaaaaaaaaaaaaaaaaaaaaaaaaaaaaaaaaaaaaaaaaaaaaaaaaa"
def token : String := "bbbbbbbbbbbbbbbbbbbbbbbbbbbbbbbbbbbbbbbbbbbbbbbbbbbbbbbbbbbbbbbb"
def device : String := "11111111111111111111111111111111"
def otherDevice : String := "22222222222222222222222222222222"
def hostId : String := "cccccccccccccccc"
def slotId : String := "dddddddddddddddddddddddddddddddd"

def keys : ChainKeys := { chainId, authToken := token, encKey := "key" }

/-- A host with nothing but a name and an address. -/
def hostPayload : HostPayload :=
  { schema := HOST_SCHEMA, groupId := none, inherit := [], aliasName := "web", hostname := "web.test",
    port := 22, user := "", auth := .Password, keyId := none, jump := [], keepaliveSecs := 30,
    keepaliveMaxMissed := 3, connectTimeoutSecs := 15, hostKey := none, tags := [], notes := "",
    imported := none }

def host (version updatedAtMs : Nat) (deviceId : String) : Record :=
  { kind := .Host, id := hostId, version, updatedAtMs, deviceId, deleted := false,
    payload := hostPayload.toJson }

/-- The same host in a format this version does not read. -/
def futureHost (version updatedAtMs : Nat) : Record :=
  { host version updatedAtMs otherDevice with payload := .obj [("schema", .num 9)] }

def accountMeta : Record :=
  { kind := .Meta, id := accountMetaId, version := 1, updatedAtMs := 1, deviceId := device,
    deleted := false,
    payload := MetaPayloadV3.toJson
      { schemaVersion := 3, createdByAppVersion := "1", migration := none } }

/-- A joined account with its marker and nothing else. -/
def account : AccountState :=
  { AccountState.new chainId with
    cursorSeq := 1, baselineEstablished := true, remoteSchemaVersion := some 3
    records := (∅ : BTreeMap LocalRecord).insert (recordKey .Meta accountMetaId)
      { record := accountMeta, seq := 1, dirty := false } }

/-- A selected space with nothing in it. -/
def space : SpaceStateV3 := { SpaceStateV3.default with selected := true, baselineEstablished := true }

/-- The library of a device that joined the sample account and selected the space. -/
def library (space : SpaceStateV3) : SyncStateV3 :=
  { version := STATE_VERSION, deviceId := device, deviceName := "laptop", relayUrl := ""
    account := some account, spaces := (∅ : BTreeMap SpaceStateV3).insert chainId space
    «local» := LocalState.default, rotation := false, migrationGate := none
    sharedWritesBlocked := false, pendingAccount := none, lastError := none }

end Sample

end Sshelter.Sync
