import Sshelter.Agent.Approval
import Sshelter.Lib.Call
import Sshelter.Lib.FirstFree
import Sshelter.Lib.JsonObject
import Sshelter.Sync.Crypto

/-! # The key vault

`vault/store.rs`: the private keys this computer holds, each sealed on its own in
`vault.json` under a key that the keychain holds in the account the file names.  A file that
cannot be used is moved to a name of its own.  What the system answers during a call (a
refused write, the keychain's answer, the random draws, how a save ends) is an argument;
`folder` and `keychain` are the state a call works on, with the open vault in memory.
-/

namespace Sshelter.Store

open Agent (AgentSettings defaultRememberMinutes)
open Sync (Primitives isKeyBase64)
open Json (field fieldOr optionOf read_step)

def VAULT_FILE : String := "vault.json"
/-- The account of a vault file that names none. -/
def VAULT_KEY_ACCOUNT : String := "vault:key"
def VAULT_KEY_ACCOUNT_PREFIX : String := "vault:key:"
/-- The prefix of the ids that replaced keys are kept under. -/
def RETIRED_PREFIX : String := "retired:"
def VAULT_VERSION : UInt32 := 2
/-- A file without an account of its own. -/
def LEGACY_VERSION : UInt32 := 1
def AAD_PREFIX : String := "sshelter-vault-v1"

/-- The id of a key that was replaced, not of a slot. -/
def isRetiredId (id : String) : Bool := RETIRED_PREFIX.toList.isPrefixOf id.toList

/-! ## Entries -/

inductive EntryOrigin where
  | Generated
  | Imported
  | Synced
deriving DecidableEq, Repr

def EntryOrigin.asStr : EntryOrigin → String
  | .Generated => "generated"
  | .Imported => "imported"
  | .Synced => "synced"

def EntryOrigin.parse : String → Option EntryOrigin
  | "generated" => some .Generated
  | "imported" => some .Imported
  | "synced" => some .Synced
  | _ => none

structure VaultEntry where
  privateKey : String
  publicKey : String
  fingerprint : String
  origin : EntryOrigin
  addedAtMs : UInt64
deriving DecidableEq, Repr

def VaultEntry.toJson (entry : VaultEntry) : Json :=
  .obj
    [("added_at_ms", .num entry.addedAtMs.toNat), ("fingerprint", .str entry.fingerprint),
      ("origin", .str entry.origin.asStr), ("private_key", .str entry.privateKey),
      ("public_key", .str entry.publicKey)]

def VaultEntry.ofJson (json : Json) : Option VaultEntry := do
  let fields ← json.record ["private_key", "public_key", "fingerprint", "origin", "added_at_ms"] false
  let privateKey ← field fields "private_key" Json.asStr
  let publicKey ← field fields "public_key" Json.asStr
  let fingerprint ← field fields "fingerprint" Json.asStr
  let origin ← field fields "origin" fun json => json.variant.bind EntryOrigin.parse
  let addedAtMs ← field fields "added_at_ms" fun json => (json.uint 64).map UInt64.ofNat
  return { privateKey, publicKey, fingerprint, origin, addedAtMs }

@[simp] theorem VaultEntry.ofJson_toJson (entry : VaultEntry) : ofJson entry.toJson = some entry := by
  have origin : EntryOrigin.parse entry.origin.asStr = some entry.origin := by cases entry.origin <;> rfl
  have time : Json.uint 64 (.num entry.addedAtMs.toNat) = some entry.addedAtMs.toNat :=
    Json.uint_num entry.addedAtMs.toNat_lt
  simp [ofJson, toJson, Json.record, field, Json.lookup_cons, Json.asStr, Json.variant, origin, time]

/-! ## The file -/

structure SealedEntry where
  nonce : String
  ciphertext : String
deriving DecidableEq, Repr

def SealedEntry.toJson (entry : SealedEntry) : Json :=
  .obj [("ciphertext", .str entry.ciphertext), ("nonce", .str entry.nonce)]

def SealedEntry.ofJson (json : Json) : Option SealedEntry := do
  let fields ← json.record ["nonce", "ciphertext"] false
  let nonce ← field fields "nonce" Json.asStr
  let ciphertext ← field fields "ciphertext" Json.asStr
  return { nonce, ciphertext }

@[simp] theorem SealedEntry.ofJson_toJson (entry : SealedEntry) : ofJson entry.toJson = some entry := by
  simp [ofJson, toJson, Json.record, field, Json.lookup_cons, Json.asStr]

/-- The settings in a file; the time is a 32-bit number. -/
abbrev StoredSettings := { settings : AgentSettings // settings.rememberMinutes < 2 ^ 32 }

def defaultSettings : StoredSettings :=
  ⟨{ rememberMinutes := defaultRememberMinutes, alwaysAsk := false }, by decide⟩

def settingsToJson (settings : StoredSettings) : Json :=
  .obj [("always_ask", .bool settings.1.alwaysAsk), ("remember_minutes", .num settings.1.rememberMinutes)]

def settingsOfJson (json : Json) : Option StoredSettings := do
  let fields ← json.record ["remember_minutes", "always_ask"] false
  let rememberMinutes ← fieldOr fields "remember_minutes" Json.asU32 (.ofNat defaultRememberMinutes)
  let alwaysAsk ← fieldOr fields "always_ask" Json.asBool false
  return ⟨{ rememberMinutes := rememberMinutes.toNat, alwaysAsk }, rememberMinutes.toNat_lt⟩

@[simp] theorem settingsOfJson_settingsToJson (settings : StoredSettings) :
    settingsOfJson (settingsToJson settings) = some settings := by
  obtain ⟨⟨rememberMinutes, alwaysAsk⟩, small⟩ := settings
  have number : Json.asU32 (.num rememberMinutes) = some (.ofNat rememberMinutes) := by
    rw [Json.asU32, Json.uint_num small]
    rfl
  have same : (UInt32.ofNat rememberMinutes).toNat = rememberMinutes := UInt32.toNat_ofNat_of_lt' small
  refine read_step rfl ?_
  refine read_step (a := .ofNat rememberMinutes) (by simp [fieldOr, Json.lookup_cons, number]) ?_
  refine read_step (a := alwaysAsk) (by simp [fieldOr, Json.asBool]) ?_
  simp only [same]
  rfl

structure VaultFile where
  version : UInt32 := LEGACY_VERSION
  /-- The keychain account of the file's key; nothing is `VAULT_KEY_ACCOUNT`. -/
  keyAccount : Option String := none
  settings : StoredSettings := defaultSettings
  entries : BTreeMap SealedEntry := ∅

/-- `key_account()`. -/
def VaultFile.account (file : VaultFile) : String := file.keyAccount.getD VAULT_KEY_ACCOUNT

def VaultFile.toJson (file : VaultFile) : Json :=
  .obj
    (("entries", Json.ofMap SealedEntry.toJson file.entries) ::
      (Json.optional "key_account" (file.keyAccount.map .str) ++
        [("settings", settingsToJson file.settings), ("version", Json.ofU32 file.version)]))

def VaultFile.ofJson (json : Json) : Option VaultFile := do
  let fields ← json.record ["version", "key_account", "settings", "entries"] false
  let version ← field fields "version" Json.asU32
  let keyAccount ← fieldOr fields "key_account" (optionOf Json.asStr) none
  let settings ← fieldOr fields "settings" settingsOfJson defaultSettings
  let entries ← fieldOr fields "entries" (Json.mapOf SealedEntry.ofJson) ∅
  return { version, keyAccount, settings, entries }

@[simp] theorem VaultFile.ofJson_toJson (file : VaultFile) : ofJson file.toJson = some file := by
  have entries : Json.mapOf SealedEntry.ofJson (Json.ofMap SealedEntry.toJson file.entries) = some file.entries :=
    Json.mapOf_ofMap SealedEntry.ofJson_toJson file.entries
  obtain ⟨version, keyAccount, settings, sealed⟩ := file
  cases keyAccount <;>
    simp_all [ofJson, toJson, Json.record, field, fieldOr, Json.lookup_cons, Json.optional, optionOf, Json.asStr]

/-! ## Sealing -/

/-- The text of a 32-byte key. -/
abbrev Key := { text : String // isKeyBase64 text = true }

inductive VaultError where
  /-- There are entries but no key. -/
  | KeyMissing
  /-- The file cannot be used; it was kept under another name unless that failed. -/
  | Unreadable (keptAs : Option String) (reason : String)
  | Newer (version : UInt32)
  | Other (error : String)
deriving DecidableEq, Repr

def aad (slotId : String) : String := AAD_PREFIX ++ "\n" ++ slotId

def invalidKey : VaultError := .Other "the vault key in the keychain is not valid"

section
variable (P : Primitives)

/-- `open_raw` and the decoding of the entry. -/
def openEntry (key : Key) (slotId : String) (entry : SealedEntry) : Except VaultError VaultEntry :=
  match P.decrypt key.1 entry.nonce (aad slotId) entry.ciphertext with
  | none => .error (.Other "vault entry cannot be decrypted")
  | some plaintext =>
    match (P.fromText plaintext).bind VaultEntry.ofJson with
    | none => .error (.Other "a vault entry is not readable")
    | some entry => .ok entry

/-- `seal_raw` of the entry's text. -/
def sealEntry (key : Key) (nonce slotId : String) (entry : VaultEntry) : SealedEntry :=
  { nonce, ciphertext := P.encrypt key.1 nonce (aad slotId) (P.toText entry.toJson) }

theorem openEntry_sealEntry {P : Primitives} (ideal : P.Ideal) (key : Key) (nonce slotId : String)
    (entry : VaultEntry) : openEntry P key slotId (sealEntry P key nonce slotId entry) = .ok entry := by
  simp [openEntry, sealEntry, ideal.decrypt_encrypt, ideal.fromText_toText]

/-- `file_version`: the version of a file, whatever else is in it. -/
def fileVersion (text : String) : Option UInt32 := do
  let json ← P.fromText text
  let fields ← json.record ["version"] false
  field fields "version" Json.asU32

def readFile (text : String) : Option VaultFile := (P.fromText text).bind VaultFile.ofJson

/-- What a save writes. -/
def VaultFile.text (file : VaultFile) : String := P.toText file.toJson

theorem readFile_text {P : Primitives} (ideal : P.Ideal) (file : VaultFile) : readFile P (file.text P) = some file := by
  simp [readFile, VaultFile.text, ideal.fromText_toText]

end

/-! ## Opening -/

/-- The keychain's answer to a read: what it holds, that it holds nothing, or an error. -/
inductive Answer where
  | Stored
  | Missing
  | Error (message : String)
deriving DecidableEq, Repr

def readKey (keychain : BTreeMap String) (answer : Answer) (account : String) : Except VaultError (Option Key) :=
  match answer with
  | .Error message => .error (.Other message)
  | .Missing => .ok none
  | .Stored =>
    match keychain[account]? with
    | none => .ok none
    | some text => if valid : isKeyBase64 text = true then .ok (some ⟨text, valid⟩) else .error invalidKey

structure Vault where
  key : Option Key
  file : VaultFile

/-- What the system answers while a vault is opened. -/
structure Opening where
  now : Nat
  /-- Reading the file fails, and not because there is none. -/
  unread : Option String := none
  /-- What the decoder says of a file that it cannot read. -/
  complaint : String := ""
  answer : Answer := .Stored
  /-- `check_write` refuses one of the two names of a move. -/
  refused : Option String := none
  moved : Bool := true

/-- The names a file is moved to, in the order they are tried. -/
def asideName (kind : String) (now : Nat) : Nat → String := numbered ("vault." ++ kind ++ "-" ++ now.repr) ".json"

def freeAsideName (folder : BTreeMap String) (kind : String) (now : Nat) : String :=
  firstFree folder.contains (asideName kind now) folder.size 0

def setAside (opening : Opening) (folder : BTreeMap String) (kind reason : String) : VaultError × BTreeMap String :=
  let name := freeAsideName folder kind opening.now
  match opening.refused with
  | some error => (.Other error, folder)
  | none =>
    match opening.moved, folder[VAULT_FILE]? with
    | true, some text => (.Unreadable (some name) reason, (folder.erase VAULT_FILE).insert name text)
    | _, _ => (.Unreadable none reason, folder)

/-- `Vault::open`. -/
def openVault (P : Primitives) (opening : Opening) (folder keychain : BTreeMap String) :
    Except VaultError Vault × BTreeMap String :=
  let aside (kind reason : String) :=
    let (error, folder) := setAside opening folder kind reason
    (.error error, folder)
  match opening.unread, folder[VAULT_FILE]? with
  | some error, _ => (.error (.Other error), folder)
  | none, none => (.ok { key := none, file := {} }, folder)
  | none, some text =>
    match fileVersion P text, readFile P text with
    | none, _ => aside "unreadable" opening.complaint
    | some version, file =>
      if VAULT_VERSION < version then (.error (.Newer version), folder)
      else
        match file with
        | none => aside "unreadable" opening.complaint
        | some file =>
          match readKey keychain opening.answer file.account with
          | .error error => (.error error, folder)
          | .ok key =>
            if key.isNone && !file.entries.isEmpty then
              aside "keyless" "the vault's key is missing from the keychain"
            else (.ok { key, file }, folder)

/-! ## Changing -/

/-- How a save ends.  `FailedLate` is the failure to restrict a file that already has its name. -/
inductive Saving where
  | Done
  | Failed (error : String)
  | FailedLate (error : String)
deriving DecidableEq, Repr

/-- What the system answers while a vault is changed. -/
structure Writing where
  /-- `check_write` refuses the path. -/
  refused : Option String := none
  answer : Answer := .Stored
  /-- The bytes of a new account name and a new key. -/
  drawn : Except String (Vector UInt8 8 × Key)
  /-- The keychain refuses the new key. -/
  notSet : Option String := none
  nonce : Except String String
  /-- The nonce of the entry that makes room. -/
  retiredNonce : Except String String := nonce
  saving : Saving := .Done

/-- An open vault with its folder and the keychain. -/
structure Desk where
  folder : BTreeMap String
  keychain : BTreeMap String
  vault : Vault

abbrev VaultCall := Call VaultError Desk

def hexByte (byte : UInt8) : String :=
  String.ofList [Nat.digitChar (byte.toNat / 16), Nat.digitChar (byte.toNat % 16)]

/-- `new_key_account`. -/
def newKeyAccount (bytes : Vector UInt8 8) : String :=
  VAULT_KEY_ACCOUNT_PREFIX ++ String.join (bytes.toList.map hexByte)

def checkWrite (refused : Option String) : VaultCall Unit :=
  match refused with
  | none => pure ()
  | some error => throw (.Other error)

def Desk.withKey (desk : Desk) (key : Key) : Desk := { desk with vault := { desk.vault with key := some key } }

/-- A new key, in the keychain and in the head of the file. -/
def Desk.withNewKey (desk : Desk) (account : String) (key : Key) : Desk :=
  { desk with
    keychain := desk.keychain.insert account key.1
    vault :=
      { key := some key
        file := { desk.vault.file with keyAccount := some account, version := VAULT_VERSION } } }

def Desk.withEntries (desk : Desk) (entries : BTreeMap SealedEntry) : Desk :=
  { desk with vault := { desk.vault with file := { desk.vault.file with entries } } }

/-- The vault's key: its own, the one its account holds, or a new one for a vault without entries. -/
def ensureKey (writing : Writing) : VaultCall Unit := do
  let desk ← get
  match desk.vault.key with
  | some _ => pure ()
  | none =>
    match ← Call.of (readKey desk.keychain writing.answer desk.vault.file.account) with
    | some key => modify (·.withKey key)
    | none =>
      if !desk.vault.file.entries.isEmpty then throw .KeyMissing
      else
        match writing.drawn, writing.notSet with
        | .error error, _ => throw (.Other ("cannot draw the vault key: " ++ error))
        | .ok _, some error => throw (.Other error)
        | .ok (bytes, key), none => modify (·.withNewKey (newKeyAccount bytes) key)

section
variable (P : Primitives)

/-- `get`. -/
def Vault.entry (vault : Vault) (slotId : String) : Except VaultError (Option VaultEntry) :=
  match vault.file.entries[slotId]? with
  | none => .ok none
  | some entry =>
    match vault.key with
    | none => .error .KeyMissing
    | some key => (openEntry P key slotId entry).map some

/-- Seals the entry into the file in memory. -/
def sealInto (nonce : Except String String) (id : String) (entry : VaultEntry) : VaultCall Unit := do
  let desk ← get
  match desk.vault.key, nonce with
  | none, _ => throw .KeyMissing
  | some _, .error error => throw (.Other ("cannot draw nonce: " ++ error))
  | some key, .ok nonce =>
    modify (·.withEntries (desk.vault.file.entries.insert id (sealEntry P key nonce id entry)))

def Desk.saved (desk : Desk) : Desk := { desk with folder := desk.folder.insert VAULT_FILE (desk.vault.file.text P) }

def save (saving : Saving) : VaultCall Unit :=
  match saving with
  | .Done => modify (·.saved P)
  | .Failed error => throw (.Other error)
  | .FailedLate error => do
    modify (·.saved P)
    throw (.Other error)

def put (writing : Writing) (slotId : String) (entry : VaultEntry) : VaultCall Unit := do
  checkWrite writing.refused
  ensureKey writing
  sealInto P writing.nonce slotId entry
  save P writing.saving

/-- The ids a replaced key can have, in the order they are tried. -/
def retiredName (slotId : String) (now : Nat) : Nat → String := numbered (RETIRED_PREFIX ++ slotId ++ ":" ++ now.repr) ""

/-- `free_retired_id`. -/
def freeRetiredId (entries : BTreeMap SealedEntry) (slotId : String) (now : Nat) : String :=
  firstFree entries.contains (retiredName slotId now) entries.size 0

/-- The key in the slot makes room for another one. -/
def retire (writing : Writing) (slotId : String) (entry : VaultEntry) (now : Nat) : VaultCall (Option String) := do
  let desk ← get
  match ← Call.of (desk.vault.entry P slotId) with
  | some old =>
    if old.fingerprint = entry.fingerprint then pure none
    else
      let id := freeRetiredId desk.vault.file.entries slotId now
      sealInto P writing.retiredNonce id old
      pure (some id)
  | none => pure none

def replace (writing : Writing) (slotId : String) (entry : VaultEntry) (now : Nat) : VaultCall (Option String) := do
  checkWrite writing.refused
  ensureKey writing
  let retired ← retire P writing slotId entry now
  sealInto P writing.nonce slotId entry
  save P writing.saving
  pure retired

def remove (writing : Writing) (slotId : String) : VaultCall Bool := do
  checkWrite writing.refused
  let desk ← get
  if desk.vault.file.entries.contains slotId then
    modify (·.withEntries (desk.vault.file.entries.erase slotId))
    save P writing.saving
    pure true
  else pure false

end

end Sshelter.Store
