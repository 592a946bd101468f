import Sshelter.Sync.Record

/-! # Typed payloads

`records_v3/types.rs` and the payload types of `record.rs` that the typed merger
decodes.  Every payload has the JSON shape the derived serializer writes (fields
in key order, absent optional fields left out where the source says so) and the
derived decoder's reading of a JSON value.  A decoded payload is the one that was
written.
-/

namespace Sshelter.Sync

open Json (field fieldOr)

def HOST_SCHEMA : UInt32 := 2
def KEYSLOT_SCHEMA : UInt32 := 2
def ACCOUNT_SCHEMA : UInt32 := 4
def MIN_ACCOUNT_SCHEMA : UInt32 := 3
def GROUP_SCHEMA : UInt32 := 1
def GROUPED_HOST_SCHEMA : UInt32 := 3
def GROUP_STATE_VERSION : Nat := 4
def NAVIGATION_STATE_VERSION : Nat := 5
def STATE_VERSION : Nat := 3
def MAX_JUMPS : Nat := 5

/-! ## Account markers -/

inductive MigrationPhase where
  | AccountGated | Publishing | Active
deriving DecidableEq, Repr

def MigrationPhase.toJson : MigrationPhase → Json
  | AccountGated => .str "account-gated"
  | Publishing => .str "publishing"
  | Active => .str "active"

def MigrationPhase.ofJson (json : Json) : Option MigrationPhase :=
  match json.variant with
  | some "account-gated" => some AccountGated
  | some "publishing" => some Publishing
  | some "active" => some Active
  | _ => none

structure MigrationGate where
  id : String
  sourceDigest : String
  phase : MigrationPhase
deriving DecidableEq, Repr

def MigrationGate.toJson (gate : MigrationGate) : Json :=
  .obj [("id", .str gate.id), ("phase", gate.phase.toJson), ("source_digest", .str gate.sourceDigest)]

def MigrationGate.ofJson (json : Json) : Option MigrationGate := do
  let fields ← json.record ["id", "source_digest", "phase"] true
  let id ← field fields "id" Json.asStr
  let sourceDigest ← field fields "source_digest" Json.asStr
  let phase ← field fields "phase" MigrationPhase.ofJson
  return { id, sourceDigest, phase }

/-- `MetaPayloadV3` of the typed merger. -/
structure MetaPayloadV3 where
  schemaVersion : UInt32
  createdByAppVersion : String
  migration : Option MigrationGate
deriving DecidableEq, Repr

def MetaPayloadV3.toJson (payload : MetaPayloadV3) : Json :=
  .obj ([("created_by_app_version", .str payload.createdByAppVersion)] ++
    Json.optional "migration" (payload.migration.map MigrationGate.toJson) ++
    [("schema_version", Json.ofU32 payload.schemaVersion)])

def MetaPayloadV3.ofJson (json : Json) : Option MetaPayloadV3 := do
  let fields ← json.record ["schema_version", "created_by_app_version", "migration"] true
  let schemaVersion ← field fields "schema_version" Json.asU32
  let createdByAppVersion ← field fields "created_by_app_version" Json.asStr
  let migration ← fieldOr fields "migration" (Json.optionOf MigrationGate.ofJson) none
  return { schemaVersion, createdByAppVersion, migration }

structure SpacePayload where
  schema : UInt32
  name : String
  slug : String
  createdAtMs : Nat
  previousId : Option String
deriving DecidableEq, Repr

def SpacePayload.toJson (payload : SpacePayload) : Json :=
  .obj [("created_at_ms", .num payload.createdAtMs), ("name", .str payload.name),
    ("previous_id", Json.ofOption Json.str payload.previousId),
    ("schema", Json.ofU32 payload.schema), ("slug", .str payload.slug)]

def SpacePayload.ofJson (json : Json) : Option SpacePayload := do
  let fields ← json.record ["schema", "name", "slug", "created_at_ms", "previous_id"] false
  let schema ← field fields "schema" Json.asU32
  let name ← field fields "name" Json.asStr
  let slug ← field fields "slug" Json.asStr
  let createdAtMs ← field fields "created_at_ms" Json.asU64
  let previousId ← fieldOr fields "previous_id" (Json.optionOf Json.asStr) none
  return { schema, name, slug, createdAtMs, previousId }

/-! ## Hosts and groups -/

inductive HostScope where
  | Local
  | Space (spaceId : String)
deriving DecidableEq, Repr

inductive AuthKind where
  | Key | Password | Interactive
deriving DecidableEq, Repr

def AuthKind.toJson : AuthKind → Json
  | Key => .str "key"
  | Password => .str "password"
  | Interactive => .str "interactive"

def AuthKind.ofJson (json : Json) : Option AuthKind :=
  match json.variant with
  | some "key" => some Key
  | some "password" => some Password
  | some "interactive" => some Interactive
  | _ => none

inductive InheritedField where
  | Port | User | Authentication | Jump | KeepaliveSecs | KeepaliveMaxMissed | ConnectTimeoutSecs
deriving DecidableEq, Repr

def InheritedField.asStr : InheritedField → String
  | Port => "port"
  | User => "user"
  | Authentication => "authentication"
  | Jump => "jump"
  | KeepaliveSecs => "keepalive_secs"
  | KeepaliveMaxMissed => "keepalive_max_missed"
  | ConnectTimeoutSecs => "connect_timeout_secs"

def InheritedField.toJson (inherited : InheritedField) : Json := .str inherited.asStr

def InheritedField.ofJson (json : Json) : Option InheritedField :=
  match json.variant with
  | some "port" => some Port
  | some "user" => some User
  | some "authentication" => some Authentication
  | some "jump" => some Jump
  | some "keepalive_secs" => some KeepaliveSecs
  | some "keepalive_max_missed" => some KeepaliveMaxMissed
  | some "connect_timeout_secs" => some ConnectTimeoutSecs
  | _ => none

structure StoredHostKey where
  algorithm : String
  publicKey : String
  fingerprint : String
  pinnedAtMs : Nat
  pinnedByDeviceId : String
deriving DecidableEq, Repr

def StoredHostKey.toJson (pin : StoredHostKey) : Json :=
  .obj [("algorithm", .str pin.algorithm), ("fingerprint", .str pin.fingerprint),
    ("pinned_at_ms", .num pin.pinnedAtMs), ("pinned_by_device_id", .str pin.pinnedByDeviceId),
    ("public_key", .str pin.publicKey)]

def StoredHostKey.ofJson (json : Json) : Option StoredHostKey := do
  let fields ← json.record
    ["algorithm", "public_key", "fingerprint", "pinned_at_ms", "pinned_by_device_id"] true
  let algorithm ← field fields "algorithm" Json.asStr
  let publicKey ← field fields "public_key" Json.asStr
  let fingerprint ← field fields "fingerprint" Json.asStr
  let pinnedAtMs ← field fields "pinned_at_ms" Json.asU64
  let pinnedByDeviceId ← field fields "pinned_by_device_id" Json.asStr
  return { algorithm, publicKey, fingerprint, pinnedAtMs, pinnedByDeviceId }

structure UnsupportedSetting where
  keyword : String
  value : String
  requiresReview : Bool
deriving DecidableEq, Repr

def UnsupportedSetting.toJson (setting : UnsupportedSetting) : Json :=
  .obj [("keyword", .str setting.keyword), ("requires_review", .bool setting.requiresReview),
    ("value", .str setting.value)]

def UnsupportedSetting.ofJson (json : Json) : Option UnsupportedSetting := do
  let fields ← json.record ["keyword", "value", "requires_review"] true
  let keyword ← field fields "keyword" Json.asStr
  let value ← field fields "value" Json.asStr
  -- Old previews did not distinguish harmless annotations.
  let requiresReview ← fieldOr fields "requires_review" Json.asBool true
  return { keyword, value, requiresReview }

structure ImportedSettings where
  source : String
  atMs : Nat
  unsupported : List UnsupportedSetting
deriving DecidableEq, Repr

def ImportedSettings.toJson (imported : ImportedSettings) : Json :=
  .obj [("at_ms", .num imported.atMs), ("source", .str imported.source),
    ("unsupported", .arr (imported.unsupported.map UnsupportedSetting.toJson))]

def ImportedSettings.ofJson (json : Json) : Option ImportedSettings := do
  let fields ← json.record ["source", "at_ms", "unsupported"] true
  let source ← field fields "source" Json.asStr
  let atMs ← field fields "at_ms" Json.asU64
  let unsupported ← field fields "unsupported" (Json.listOf UnsupportedSetting.ofJson)
  return { source, atMs, unsupported }

structure HostPayload where
  schema : UInt32
  groupId : Option String
  inherit : List InheritedField
  aliasName : String
  hostname : String
  port : UInt16
  user : String
  auth : AuthKind
  keyId : Option String
  jump : List String
  keepaliveSecs : UInt32
  keepaliveMaxMissed : UInt32
  connectTimeoutSecs : UInt32
  hostKey : Option StoredHostKey
  tags : List String
  notes : String
  imported : Option ImportedSettings
deriving DecidableEq, Repr

/-- The serialized fields; only `group_id` and `inherit` can be left out. -/
def HostPayload.entries (p : HostPayload) : List (String × Json) :=
  [("alias", .str p.aliasName), ("auth", p.auth.toJson),
      ("connect_timeout_secs", Json.ofU32 p.connectTimeoutSecs)] ++
    Json.optional "group_id" (p.groupId.map Json.str) ++
    [("host_key", Json.ofOption StoredHostKey.toJson p.hostKey), ("hostname", .str p.hostname),
      ("imported", Json.ofOption ImportedSettings.toJson p.imported)] ++
    Json.optional "inherit"
      (if p.inherit.isEmpty then none else some (.arr (p.inherit.map InheritedField.toJson))) ++
    [("jump", .arr (p.jump.map Json.str)),
      ("keepalive_max_missed", Json.ofU32 p.keepaliveMaxMissed),
      ("keepalive_secs", Json.ofU32 p.keepaliveSecs),
      ("key_id", Json.ofOption Json.str p.keyId), ("notes", .str p.notes),
      ("port", Json.ofU16 p.port), ("schema", Json.ofU32 p.schema),
      ("tags", .arr (p.tags.map Json.str)), ("user", .str p.user)]

def HostPayload.toJson (p : HostPayload) : Json := .obj p.entries

def HostPayload.ofJson (json : Json) : Option HostPayload := do
  let fields ← json.record
    ["schema", "group_id", "inherit", "alias", "hostname", "port", "user", "auth", "key_id", "jump",
      "keepalive_secs", "keepalive_max_missed", "connect_timeout_secs", "host_key", "tags", "notes",
      "imported"] true
  let schema ← field fields "schema" Json.asU32
  let groupId ← fieldOr fields "group_id" (Json.optionOf Json.asStr) none
  let inherit ← fieldOr fields "inherit" (Json.listOf InheritedField.ofJson) []
  let aliasName ← field fields "alias" Json.asStr
  let hostname ← field fields "hostname" Json.asStr
  let port ← fieldOr fields "port" Json.asU16 22
  let user ← fieldOr fields "user" Json.asStr ""
  let auth ← field fields "auth" AuthKind.ofJson
  let keyId ← fieldOr fields "key_id" (Json.optionOf Json.asStr) none
  let jump ← fieldOr fields "jump" (Json.listOf Json.asStr) []
  let keepaliveSecs ← fieldOr fields "keepalive_secs" Json.asU32 30
  let keepaliveMaxMissed ← fieldOr fields "keepalive_max_missed" Json.asU32 3
  let connectTimeoutSecs ← fieldOr fields "connect_timeout_secs" Json.asU32 15
  let hostKey ← fieldOr fields "host_key" (Json.optionOf StoredHostKey.ofJson) none
  let tags ← fieldOr fields "tags" (Json.listOf Json.asStr) []
  let notes ← fieldOr fields "notes" Json.asStr ""
  let imported ← fieldOr fields "imported" (Json.optionOf ImportedSettings.ofJson) none
  return {
    schema, groupId, inherit, aliasName, hostname, port, user, auth, keyId, jump, keepaliveSecs,
    keepaliveMaxMissed, connectTimeoutSecs, hostKey, tags, notes, imported }

structure HostRecord where
  id : String
  scope : HostScope
  payload : HostPayload
deriving DecidableEq, Repr

structure GroupAuthentication where
  auth : AuthKind
  keyId : Option String
deriving DecidableEq, Repr

def GroupAuthentication.toJson (authentication : GroupAuthentication) : Json :=
  .obj [("auth", authentication.auth.toJson),
    ("key_id", Json.ofOption Json.str authentication.keyId)]

/-- A missing `key_id` is nothing in the object form and an error in the array form. -/
def GroupAuthentication.ofJson (json : Json) : Option GroupAuthentication := do
  let fields ← json.record ["auth", "key_id"] true
  let auth ← field fields "auth" AuthKind.ofJson
  let keyId ← match json with
    | .arr _ => field fields "key_id" (Json.optionOf Json.asStr)
    | _ => fieldOr fields "key_id" (Json.optionOf Json.asStr) none
  return { auth, keyId }

structure GroupDefaults where
  port : Option UInt16
  user : Option String
  authentication : Option GroupAuthentication
  jump : Option (List String)
  keepaliveSecs : Option UInt32
  keepaliveMaxMissed : Option UInt32
  connectTimeoutSecs : Option UInt32
deriving DecidableEq, Repr

def GroupDefaults.empty : GroupDefaults :=
  { port := none, user := none, authentication := none, jump := none, keepaliveSecs := none,
    keepaliveMaxMissed := none, connectTimeoutSecs := none }

def GroupDefaults.entries (d : GroupDefaults) : List (String × Json) :=
  Json.optional "authentication" (d.authentication.map GroupAuthentication.toJson) ++
    Json.optional "connect_timeout_secs" (d.connectTimeoutSecs.map Json.ofU32) ++
    Json.optional "jump" (d.jump.map fun jump => .arr (jump.map Json.str)) ++
    Json.optional "keepalive_max_missed" (d.keepaliveMaxMissed.map Json.ofU32) ++
    Json.optional "keepalive_secs" (d.keepaliveSecs.map Json.ofU32) ++
    Json.optional "port" (d.port.map Json.ofU16) ++
    Json.optional "user" (d.user.map Json.str)

def GroupDefaults.toJson (d : GroupDefaults) : Json := .obj d.entries

def GroupDefaults.ofJson (json : Json) : Option GroupDefaults := do
  let fields ← json.record
    ["port", "user", "authentication", "jump", "keepalive_secs", "keepalive_max_missed",
      "connect_timeout_secs"] true
  let port ← fieldOr fields "port" (Json.optionOf Json.asU16) none
  let user ← fieldOr fields "user" (Json.optionOf Json.asStr) none
  let authentication ←
    fieldOr fields "authentication" (Json.optionOf GroupAuthentication.ofJson) none
  let jump ← fieldOr fields "jump" (Json.optionOf (Json.listOf Json.asStr)) none
  let keepaliveSecs ← fieldOr fields "keepalive_secs" (Json.optionOf Json.asU32) none
  let keepaliveMaxMissed ← fieldOr fields "keepalive_max_missed" (Json.optionOf Json.asU32) none
  let connectTimeoutSecs ← fieldOr fields "connect_timeout_secs" (Json.optionOf Json.asU32) none
  return {
    port, user, authentication, jump, keepaliveSecs, keepaliveMaxMissed, connectTimeoutSecs }

structure GroupPayload where
  schema : UInt32
  name : String
  parentId : Option String
  defaults : GroupDefaults
deriving DecidableEq, Repr

def GroupPayload.toJson (p : GroupPayload) : Json :=
  .obj [("defaults", p.defaults.toJson), ("name", .str p.name),
    ("parent_id", Json.ofOption Json.str p.parentId), ("schema", Json.ofU32 p.schema)]

def GroupPayload.ofJson (json : Json) : Option GroupPayload := do
  let fields ← json.record ["schema", "name", "parent_id", "defaults"] true
  let schema ← field fields "schema" Json.asU32
  let name ← field fields "name" Json.asStr
  let parentId ← fieldOr fields "parent_id" (Json.optionOf Json.asStr) none
  let defaults ← fieldOr fields "defaults" GroupDefaults.ofJson GroupDefaults.empty
  return { schema, name, parentId, defaults }

structure GroupRecord where
  id : String
  scope : HostScope
  payload : GroupPayload
deriving DecidableEq, Repr

/-! ## Key slots and devices -/

structure KeySlotPayload where
  schema : UInt32
  name : String
  publicKey : String
  fingerprint : String
  keyType : String
  hasPassphrase : Bool
  createdAtMs : Nat
  originDeviceId : String
deriving DecidableEq, Repr

def KeySlotPayload.toJson (p : KeySlotPayload) : Json :=
  .obj [("created_at_ms", .num p.createdAtMs), ("fingerprint", .str p.fingerprint),
    ("has_passphrase", .bool p.hasPassphrase), ("key_type", .str p.keyType), ("name", .str p.name),
    ("origin_device_id", .str p.originDeviceId), ("public_key", .str p.publicKey),
    ("schema", Json.ofU32 p.schema)]

def KeySlotPayload.ofJson (json : Json) : Option KeySlotPayload := do
  let fields ← json.record
    ["schema", "name", "public_key", "fingerprint", "key_type", "has_passphrase", "created_at_ms",
      "origin_device_id"] true
  let schema ← field fields "schema" Json.asU32
  let name ← field fields "name" Json.asStr
  let publicKey ← field fields "public_key" Json.asStr
  let fingerprint ← field fields "fingerprint" Json.asStr
  let keyType ← field fields "key_type" Json.asStr
  let hasPassphrase ← field fields "has_passphrase" Json.asBool
  let createdAtMs ← field fields "created_at_ms" Json.asU64
  let originDeviceId ← field fields "origin_device_id" Json.asStr
  return { schema, name, publicKey, fingerprint, keyType, hasPassphrase, createdAtMs, originDeviceId }

structure DeviceSlot where
  slotId : String
  fingerprint : Option String
  syncedCopy : Bool
  inVault : Bool
deriving DecidableEq, Repr

def DeviceSlot.ofJson (json : Json) : Option DeviceSlot := do
  let fields ← json.record ["slot_id", "fingerprint", "synced_copy", "in_vault"] false
  let slotId ← field fields "slot_id" Json.asStr
  let fingerprint ← match json with
    | .arr _ => field fields "fingerprint" (Json.optionOf Json.asStr)
    | _ => fieldOr fields "fingerprint" (Json.optionOf Json.asStr) none
  let syncedCopy ← field fields "synced_copy" Json.asBool
  let inVault ← fieldOr fields "in_vault" Json.asBool false
  return { slotId, fingerprint, syncedCopy, inVault }

structure DevicePayload where
  schema : UInt32
  name : String
  platform : String
  joinedAtMs : Nat
  lastSeenMs : Nat
  keys : List String
  spaces : List String
  slots : List DeviceSlot
deriving DecidableEq, Repr

def DevicePayload.ofJson (json : Json) : Option DevicePayload := do
  let fields ← json.record
    ["schema", "name", "platform", "joined_at_ms", "last_seen_ms", "keys", "spaces", "slots"] false
  let schema ← field fields "schema" Json.asU32
  let name ← field fields "name" Json.asStr
  let platform ← field fields "platform" Json.asStr
  let joinedAtMs ← field fields "joined_at_ms" Json.asU64
  let lastSeenMs ← field fields "last_seen_ms" Json.asU64
  let keys ← fieldOr fields "keys" (Json.listOf Json.asStr) []
  let spaces ← fieldOr fields "spaces" (Json.listOf Json.asStr) []
  let slots ← fieldOr fields "slots" (Json.listOf DeviceSlot.ofJson) []
  return { schema, name, platform, joinedAtMs, lastSeenMs, keys, spaces, slots }

/-! ## Round trips

The decoder reads back what the serializer wrote, field by field; the lemmas about the
enumerations close the fields that hold one. -/

section RoundTrip

@[simp] theorem MigrationPhase.ofJson_toJson (phase : MigrationPhase) :
    MigrationPhase.ofJson phase.toJson = some phase := by
  cases phase <;> rfl

@[simp] theorem AuthKind.ofJson_toJson (auth : AuthKind) : AuthKind.ofJson auth.toJson = some auth := by
  cases auth <;> rfl

@[simp] theorem InheritedField.ofJson_toJson (inherited : InheritedField) :
    InheritedField.ofJson inherited.toJson = some inherited := by
  cases inherited <;> rfl

@[simp] theorem MigrationGate.ofJson_toJson (gate : MigrationGate) :
    MigrationGate.ofJson gate.toJson = some gate := by
  simp [MigrationGate.ofJson, MigrationGate.toJson, Json.record, field, Json.lookup_cons, Json.asStr]

@[simp] theorem StoredHostKey.ofJson_toJson (pin : StoredHostKey) :
    StoredHostKey.ofJson pin.toJson = some pin := by
  simp [StoredHostKey.ofJson, StoredHostKey.toJson, Json.record, field, Json.lookup_cons, Json.asStr,
    Json.asU64]

@[simp] theorem UnsupportedSetting.ofJson_toJson (setting : UnsupportedSetting) :
    UnsupportedSetting.ofJson setting.toJson = some setting := by
  simp [UnsupportedSetting.ofJson, UnsupportedSetting.toJson, Json.record, field, fieldOr,
    Json.lookup_cons, Json.asStr, Json.asBool]

@[simp] theorem ImportedSettings.ofJson_toJson (imported : ImportedSettings) :
    ImportedSettings.ofJson imported.toJson = some imported := by
  simp [ImportedSettings.ofJson, ImportedSettings.toJson, Json.record, field, Json.lookup_cons,
    Json.asStr, Json.asU64]

@[simp] theorem GroupAuthentication.ofJson_toJson (authentication : GroupAuthentication) :
    GroupAuthentication.ofJson authentication.toJson = some authentication := by
  simp [GroupAuthentication.ofJson, GroupAuthentication.toJson, Json.record, field, fieldOr,
    Json.lookup_cons]

open Json (read_step)

theorem HostPayload.ofJson_toJson (p : HostPayload) : HostPayload.ofJson p.toJson = some p := by
  obtain ⟨schema, groupId, inherited, aliasName, hostname, port, user, auth, keyId, jump, keepaliveSecs,
    keepaliveMaxMissed, connectTimeoutSecs, pin, tags, notes, imported⟩ := p
  have inherits : Json.listOf InheritedField.ofJson (.arr (inherited.map InheritedField.toJson)) =
      some inherited :=
    Json.listOf_arr_map _ _ _ fun _ _ => InheritedField.ofJson_toJson _
  have pins : Json.optionOf StoredHostKey.ofJson (Json.ofOption StoredHostKey.toJson pin) = some pin :=
    Json.optionOf_ofOption _ _ StoredHostKey.ofJson_toJson (fun _ => by simp [StoredHostKey.toJson]) pin
  have imports : Json.optionOf ImportedSettings.ofJson (Json.ofOption ImportedSettings.toJson imported) =
      some imported :=
    Json.optionOf_ofOption _ _ ImportedSettings.ofJson_toJson
      (fun _ => by simp [ImportedSettings.toJson]) imported
  -- Each field's lookup computes once it is known which optional fields are present.
  cases groupId <;> cases inherited <;>
  · refine read_step rfl ?_
    refine read_step (Json.asU32_ofU32 schema) ?_
    refine read_step rfl ?_
    refine read_step (by first | exact rfl | exact inherits) ?_
    refine read_step (a := aliasName) rfl ?_
    refine read_step (a := hostname) rfl ?_
    refine read_step (Json.asU16_ofU16 port) ?_
    refine read_step (a := user) rfl ?_
    refine read_step (AuthKind.ofJson_toJson auth) ?_
    refine read_step (Json.optionOf_asStr keyId) ?_
    refine read_step (Json.listOf_asStr jump) ?_
    refine read_step (Json.asU32_ofU32 keepaliveSecs) ?_
    refine read_step (Json.asU32_ofU32 keepaliveMaxMissed) ?_
    refine read_step (Json.asU32_ofU32 connectTimeoutSecs) ?_
    refine read_step pins ?_
    refine read_step (Json.listOf_asStr tags) ?_
    refine read_step (a := notes) rfl ?_
    refine read_step imports ?_
    rfl

/-- Assigning `null` to the pin of a payload drops it and nothing else. -/
theorem HostPayload.ofJson_dropPin {fields : List (String × Json)} {p : HostPayload}
    (read : HostPayload.ofJson (.obj fields) = some p) :
    HostPayload.ofJson ((Json.obj fields).set "host_key" .null) = some { p with hostKey := none } := by
  unfold HostPayload.ofJson at read ⊢
  obtain ⟨view, seen, read⟩ := Option.bind_eq_some_iff.mp read
  obtain ⟨schema, schemaRead, read⟩ := Option.bind_eq_some_iff.mp read
  obtain ⟨groupId, groupIdRead, read⟩ := Option.bind_eq_some_iff.mp read
  obtain ⟨inherited, inheritedRead, read⟩ := Option.bind_eq_some_iff.mp read
  obtain ⟨aliasName, aliasNameRead, read⟩ := Option.bind_eq_some_iff.mp read
  obtain ⟨hostname, hostnameRead, read⟩ := Option.bind_eq_some_iff.mp read
  obtain ⟨port, portRead, read⟩ := Option.bind_eq_some_iff.mp read
  obtain ⟨user, userRead, read⟩ := Option.bind_eq_some_iff.mp read
  obtain ⟨auth, authRead, read⟩ := Option.bind_eq_some_iff.mp read
  obtain ⟨keyId, keyIdRead, read⟩ := Option.bind_eq_some_iff.mp read
  obtain ⟨jump, jumpRead, read⟩ := Option.bind_eq_some_iff.mp read
  obtain ⟨keepaliveSecs, keepaliveSecsRead, read⟩ := Option.bind_eq_some_iff.mp read
  obtain ⟨keepaliveMaxMissed, keepaliveMaxMissedRead, read⟩ := Option.bind_eq_some_iff.mp read
  obtain ⟨connectTimeoutSecs, connectTimeoutSecsRead, read⟩ := Option.bind_eq_some_iff.mp read
  obtain ⟨_, _, read⟩ := Option.bind_eq_some_iff.mp read
  obtain ⟨tags, tagsRead, read⟩ := Option.bind_eq_some_iff.mp read
  obtain ⟨notes, notesRead, read⟩ := Option.bind_eq_some_iff.mp read
  obtain ⟨imported, importedRead, read⟩ := Option.bind_eq_some_iff.mp read
  rw [Json.record_set (by decide) seen]
  cases read
  refine read_step rfl ?_
  refine read_step schemaRead ?_
  refine read_step groupIdRead ?_
  refine read_step inheritedRead ?_
  refine read_step aliasNameRead ?_
  refine read_step hostnameRead ?_
  refine read_step portRead ?_
  refine read_step userRead ?_
  refine read_step authRead ?_
  refine read_step keyIdRead ?_
  refine read_step jumpRead ?_
  refine read_step keepaliveSecsRead ?_
  refine read_step keepaliveMaxMissedRead ?_
  refine read_step connectTimeoutSecsRead ?_
  refine read_step (a := none) rfl ?_
  refine read_step tagsRead ?_
  refine read_step notesRead ?_
  refine read_step importedRead ?_
  rfl

theorem GroupDefaults.ofJson_toJson (d : GroupDefaults) : GroupDefaults.ofJson d.toJson = some d := by
  have look : ∀ name, d.entries.lookup name = (((((((
      if name = "authentication" then d.authentication.map GroupAuthentication.toJson else none).or
      (if name = "connect_timeout_secs" then d.connectTimeoutSecs.map Json.ofU32 else none)).or
      (if name = "jump" then d.jump.map fun jump => .arr (jump.map Json.str) else none)).or
      (if name = "keepalive_max_missed" then d.keepaliveMaxMissed.map Json.ofU32 else none)).or
      (if name = "keepalive_secs" then d.keepaliveSecs.map Json.ofU32 else none)).or
      (if name = "port" then d.port.map Json.ofU16 else none)).or
      (if name = "user" then d.user.map Json.str else none)) := fun name => by
    simp only [GroupDefaults.entries, Json.lookup_append, Json.lookup_optional]
  have known : (d.entries.any fun entry => !(["port", "user", "authentication", "jump",
      "keepalive_secs", "keepalive_max_missed", "connect_timeout_secs"].contains entry.1)) = false := by
    simp only [GroupDefaults.entries, List.any_append, Bool.or_eq_false_iff]
    refine ⟨⟨⟨⟨⟨⟨?_, ?_⟩, ?_⟩, ?_⟩, ?_⟩, ?_⟩, ?_⟩ <;> exact Json.any_optional _ _ _ fun _ => rfl
  refine read_step (a := fun name => d.entries.lookup name)
    (by simp only [GroupDefaults.toJson, Json.record, known]; rfl) ?_
  refine read_step (Json.fieldOr_optional Json.ofU16 _ Json.asU16_ofU16
    (fun _ => by simp [Json.ofU16]) d.port (by simp [look])) ?_
  refine read_step (Json.fieldOr_optional Json.str _ (fun _ => rfl) (fun _ => by simp) d.user
    (by simp [look])) ?_
  refine read_step (Json.fieldOr_optional GroupAuthentication.toJson _
    GroupAuthentication.ofJson_toJson (fun _ => by simp [GroupAuthentication.toJson])
    d.authentication (by simp [look])) ?_
  refine read_step (Json.fieldOr_optional (fun jump => Json.arr (jump.map Json.str)) _
    Json.listOf_asStr (fun _ => by simp) d.jump (by simp [look])) ?_
  refine read_step (Json.fieldOr_optional Json.ofU32 _ Json.asU32_ofU32
    (fun _ => by simp [Json.ofU32]) d.keepaliveSecs (by simp [look])) ?_
  refine read_step (Json.fieldOr_optional Json.ofU32 _ Json.asU32_ofU32
    (fun _ => by simp [Json.ofU32]) d.keepaliveMaxMissed (by simp [look])) ?_
  refine read_step (Json.fieldOr_optional Json.ofU32 _ Json.asU32_ofU32
    (fun _ => by simp [Json.ofU32]) d.connectTimeoutSecs (by simp [look])) ?_
  rfl

theorem GroupPayload.ofJson_toJson (p : GroupPayload) : GroupPayload.ofJson p.toJson = some p := by
  refine read_step rfl ?_
  refine read_step (Json.asU32_ofU32 p.schema) ?_
  refine read_step (a := p.name) rfl ?_
  refine read_step (Json.optionOf_asStr p.parentId) ?_
  refine read_step (GroupDefaults.ofJson_toJson p.defaults) ?_
  rfl

theorem KeySlotPayload.ofJson_toJson (p : KeySlotPayload) : KeySlotPayload.ofJson p.toJson = some p := by
  refine read_step rfl ?_
  refine read_step (Json.asU32_ofU32 p.schema) ?_
  rfl

end RoundTrip

end Sshelter.Sync
