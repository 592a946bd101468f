import Sshelter.Lib.Result
import Sshelter.Lib.Text
import Sshelter.Sync.RecordsV3.Types

/-! # Record shape validation

`records_v3/validate.rs`.  Disk and relay admission check the shape of a record
only; relationship conflicts (repeated jumps, alias clashes, missing groups) are
left to the repository.  The text a JSON decoder attaches to its error is not
modelled: `Decode` carries the record kind alone.
-/

namespace Sshelter.Sync

open Text (isWhitespace isControl isAsciiAlphanumeric trim)

inductive TypedRecord (α : Type) where
  | Live (value : α)
  | Tombstone (id : String)
deriving DecidableEq, Repr

inductive RecordValidationError where
  | UnsupportedSchema (kind : String) (found : Nat)
  | Invalid (field id reason : String)
  | Decode (kind : String)
  | WrongKind (expected found : String)
  | DuplicateId (id : String)
  | AliasConflict (aliasName : String) (scope : HostScope)
  | AmbiguousAlias (aliasName : String)
  | HostNotFound (id : String)
  | MissingJump (hostId jumpId : String)
  | JumpCycle (id : String)
  | RepeatedJump (hostId jumpId : String)
  | JumpDepth (id : String)
  | PublicKeyMismatch (id : String)
deriving DecidableEq, Repr

abbrev Validated := Except RecordValidationError

/-- `schema`: the record's schema is the supported one. -/
def checkSchema (kind : String) (found expected : UInt32) : Validated Unit :=
  refuse (found != expected) (.UnsupportedSchema kind found.toNat)

/-- Some character of the text breaks a single-token field. -/
def spaced (s : String) : Bool := s.toList.any fun c => isWhitespace c || isControl c

def isCliAlias (s : String) : Bool :=
  s != "" && s.toList.head? != some '-' &&
    s.toList.all fun c => isAsciiAlphanumeric c || "._@%-".toList.contains c

section
variable (P : Primitives)

def parsePublic (line id : String) : Validated PublicKey :=
  match P.fromOpenssh (trim line) with
  | some key => .ok key
  | none => .error (.Invalid "public_key" id "not a complete OpenSSH public key")

/-- The pinned server key names a device and is the key its fingerprint says. -/
def validatePin (id : String) (pin : StoredHostKey) : Validated Unit := do
  refuse (!isSlotId pin.pinnedByDeviceId) (.Invalid "pinned_by_device_id" id "expected a device id")
  let key ← parsePublic P (pin.algorithm ++ " " ++ pin.publicKey) id
  refuse (key.algorithm != pin.algorithm || key.fingerprint != pin.fingerprint)
    (.PublicKeyMismatch id)

def validateScope (field reason : String) (id : String) : HostScope → Validated Unit
  | .Local => .ok ()
  | .Space spaceId => refuse (!isChainId spaceId) (.Invalid field id reason)

def validateHostShape (host : HostRecord) : Validated Unit := do
  let p := host.payload
  refuse (!(p.schema == HOST_SCHEMA || p.schema == GROUPED_HOST_SCHEMA))
    (.UnsupportedSchema "host" p.schema.toNat)
  refuse (p.schema == HOST_SCHEMA && (p.groupId.isSome || !p.inherit.isEmpty))
    (.Invalid "group_id" host.id "inheritance requires host schema 3")
  refuse ((p.groupId.any fun id => !isHostId id) || !decide p.inherit.Nodup)
    (.Invalid "inherit" host.id "invalid group or duplicate inherited field")
  refuse (!isHostId host.id) (.Invalid "id" host.id "expected 16 lowercase hex characters")
  validateScope "space_id" "expected a valid chain id" host.id host.scope
  refuse (!isCliAlias p.aliasName) (.Invalid "alias" host.id "not a valid CLI alias")
  refuse (p.hostname == "" || spaced p.hostname)
    (.Invalid "hostname" host.id "missing or invalid endpoint")
  refuse (p.port == 0) (.Invalid "port" host.id "must be between 1 and 65535")
  refuse (spaced p.user) (.Invalid "user" host.id "contains whitespace or control characters")
  refuse (p.connectTimeoutSecs == 0) (.Invalid "connect_timeout_secs" host.id "must be nonzero")
  refuse (p.auth == .Key && p.keyId.isNone)
    (.Invalid "key_id" host.id "key authentication requires a key reference")
  refuse (p.keyId.any fun id => !isSlotId id)
    (.Invalid "key_id" host.id "expected an existing-format vault id")
  refuse (p.jump.any fun id => !isHostId id) (.Invalid "jump" host.id "expected host ids")
  forSome p.hostKey (validatePin P host.id)

/-- The jumps of one host are distinct and none is the host itself. -/
def validateJumps (hostId : String) : (seen jumps : List String) → Validated Unit
  | _, [] => .ok ()
  | seen, id :: rest =>
    if id = hostId then .error (.JumpCycle hostId)
    else if id ∈ seen then .error (.RepeatedJump hostId id)
    else validateJumps hostId (id :: seen) rest

/-- Strict creation and connection preflight; persistence uses `validateHostShape`. -/
def validateHost (host : HostRecord) : Validated Unit := do
  validateHostShape P host
  validateJumps host.id [] host.payload.jump
  refuse (decide (MAX_JUMPS < host.payload.jump.length)) (.JumpDepth host.id)

def validateKeyslot (id : String) (slot : KeySlotPayload) : Validated Unit := do
  checkSchema "keyslot" slot.schema KEYSLOT_SCHEMA
  refuse (!isSlotId id) (.Invalid "id" id "expected 32 lowercase hex characters")
  refuse (trim slot.name == "" || slot.name.toList.any isControl)
    (.Invalid "name" id "missing or invalid label")
  refuse (!isSlotId slot.originDeviceId) (.Invalid "origin_device_id" id "expected a device id")
  let key ← parsePublic P slot.publicKey id
  refuse (key.algorithm != slot.keyType || key.fingerprint != slot.fingerprint)
    (.PublicKeyMismatch id)

def validateGroupAuthentication (id : String) (authentication : GroupAuthentication) :
    Validated Unit :=
  refuse (((authentication.auth == .Key) != authentication.keyId.isSome) ||
      authentication.keyId.any fun key => !isSlotId key)
    (.Invalid "authentication" id "authentication and key identity must be consistent")

def validateGroupJumps (id : String) (jumps : List String) : Validated Unit :=
  refuse (decide (MAX_JUMPS < jumps.length) || (jumps.any fun jump => !isHostId jump) ||
      !decide jumps.Nodup)
    (.Invalid "jump" id "invalid jump defaults")

def validateGroup (group : GroupRecord) : Validated Unit := do
  let p := group.payload
  let d := p.defaults
  checkSchema "group" p.schema GROUP_SCHEMA
  refuse (!isHostId group.id || p.parentId.any fun id => !isHostId id)
    (.Invalid "id" group.id "expected group ids")
  validateScope "scope" "invalid space id" group.id group.scope
  refuse (trim p.name != p.name || p.name == "" || decide (128 < p.name.length) ||
      p.name.toList.any isControl)
    (.Invalid "name" group.id "expected a trimmed name of 1 to 128 characters")
  refuse (d.port == some 0 || d.connectTimeoutSecs == some 0 || d.user.any spaced)
    (.Invalid "defaults" group.id "invalid connection defaults")
  forSome d.authentication (validateGroupAuthentication group.id)
  forSome d.jump (validateGroupJumps group.id)

/-! ## Decoding a record -/

def ofDecoder {α : Type} (kind : String) : Option α → Validated α
  | some value => .ok value
  | none => .error (.Decode kind)

def decodeHost (record : Record) (scope : HostScope) : Validated (TypedRecord HostRecord) := do
  refuse (record.kind != .Host) (.WrongKind "host" record.kind.asStr)
  refuse (!isHostId record.id) (.Invalid "id" record.id "expected a host id")
  if record.deleted then .ok (.Tombstone record.id)
  else do
    let schema := ((record.payload.get "schema").bind Json.asU64).getD 0
    refuse (!(schema == 2 || schema == 3))
      (.UnsupportedSchema "host" (if schema < 2 ^ 32 then schema else 2 ^ 32 - 1))
    let payload ← ofDecoder "host" (HostPayload.ofJson record.payload)
    let host : HostRecord := { id := record.id, scope, payload }
    validateHostShape P host
    .ok (.Live host)

def payloadSchema (record : Record) (kind : String) (expected : UInt32) : Validated Unit :=
  match (record.payload.get "schema").bind Json.asU32 with
  | none => .error (.Invalid "schema" record.id "missing or invalid schema")
  | some found => checkSchema kind found expected

def decodeKeyslot (record : Record) : Validated (TypedRecord KeySlotPayload) := do
  refuse (record.kind != .KeySlot) (.WrongKind "keyslot" record.kind.asStr)
  refuse (!isSlotId record.id) (.Invalid "id" record.id "expected a keyslot id")
  if record.deleted then .ok (.Tombstone record.id)
  else do
    payloadSchema record "keyslot" KEYSLOT_SCHEMA
    let slot ← ofDecoder "keyslot" (KeySlotPayload.ofJson record.payload)
    validateKeyslot P record.id slot
    .ok (.Live slot)

def decodeGroup (record : Record) (scope : HostScope) : Validated (TypedRecord GroupRecord) := do
  refuse (record.kind != .Group) (.WrongKind "group" record.kind.asStr)
  refuse (!isHostId record.id) (.Invalid "id" record.id "expected a group id")
  if record.deleted then .ok (.Tombstone record.id)
  else do
    let payload ← ofDecoder "group" (GroupPayload.ofJson record.payload)
    let group : GroupRecord := { id := record.id, scope, payload }
    validateGroup group
    .ok (.Live group)

/-- The account's public key and the local one are the same key with the recorded identity. -/
def keyMaterialMatches (slot : KeySlotPayload) (localPublicKey localFingerprint : String) :
    Validated Unit := do
  checkSchema "keyslot" slot.schema KEYSLOT_SCHEMA
  let authoritative ← parsePublic P slot.publicKey "account keyslot"
  let «local» ← parsePublic P localPublicKey "local key"
  refuse (authoritative.keyData != «local».keyData || authoritative.fingerprint != slot.fingerprint ||
      authoritative.fingerprint != localFingerprint || authoritative.algorithm != slot.keyType)
    (.PublicKeyMismatch "account keyslot")

end

end Sshelter.Sync
