import Sshelter.Sync.GroupOrder
import Sshelter.Sync.RecordMerge

/-! # Checking a saved state

`validate_state` of `records_v3/state.rs`: what a state must look like before it is
written to disk and after it is read back.  The checks of a pending account operation
(`record_account::validate_pending`) look at that operation alone and are a parameter
here.  The sections inside the operation are checked by a second call of
`validate_state` with no operation pending, which is `validateSections`.
-/

namespace Sshelter.Sync

def stateInvalid (field id reason : String) : RecordValidationError := .Invalid field id reason

def validateCacheKey (key : String) (row : LocalRecord) : Validated Unit := do
  refuse row.record.kind.isSecret
    (stateInvalid "records" row.record.kind.asStr "secret records must remain sealed")
  refuse (key != recordKey row.record.kind row.record.id)
    (stateInvalid "record_key" row.record.id "cache key does not match kind and id")

def validateSealedRow (account : Bool) (entry : String × SealedRecord) : Validated Unit := do
  let (key, row) := entry
  refuse (row.publicIdentity.any fun hint =>
      !hint.isValidFor row.envelope || !hintedKind account row.envelope.kind)
    (stateInvalid "public_identity" "sealed" "invalid public ordering evidence")
  refuse (key != sealedKey row.envelope.kind row.envelope.idHash)
    (stateInvalid "sealed_key" row.envelope.idHash "cache key does not match envelope")

def validateSealed (sealed : BTreeMap SealedRecord) (account : Bool) : Validated Unit :=
  forEach sealed.toList (validateSealedRow account)

/-- `MetaPayload` reads the schema version and the app version and ignores other fields. -/
def metaSchemaVersion (json : Json) : Option UInt32 := do
  let fields ← json.record ["schema_version", "created_by_app_version"] false
  let schemaVersion ← Json.field fields "schema_version" Json.asU32
  let _ ← Json.field fields "created_by_app_version" Json.asStr
  return schemaVersion

def validateAccountMeta (record : Record) : Validated Unit := do
  let schema ← ofDecoder "state" (metaSchemaVersion record.payload)
  refuse (!(MIN_ACCOUNT_SCHEMA ≤ schema && schema ≤ ACCOUNT_SCHEMA))
    (.UnsupportedSchema "account" schema.toNat)
  match record.payload.get "migration" with
  | none | some .null => .ok ()
  | some value => do
    let gate ← ofDecoder "migration" (MigrationGate.ofJson value)
    validateMigrationGate gate

/-! ## Sections -/

section
variable (P : Primitives)

/-- One row of a scope's hosts; a space keeps its groups among them. -/
def validateScopeRow (scope : HostScope) (entry : String × LocalRecord) : Validated Unit := do
  let (key, row) := entry
  validateCacheKey key row
  if row.record.kind = .Group then do
    let _ ← decodeGroup row.record scope
  else do
    let _ ← decodeHost P row.record scope

/-- `read_hosts` of the state module. -/
def validateHosts (records : BTreeMap LocalRecord) (scope : HostScope) : Validated Unit :=
  forEach records.toList (validateScopeRow P scope)

def validateGroupRow (entry : String × LocalRecord) : Validated Unit := do
  validateCacheKey entry.1 entry.2
  let _ ← decodeGroup entry.2.record .Local

def validateLocalKey (entry : String × LocalKeyMetadata) : Validated Unit := do
  validateKeyslot P entry.1 entry.2.public
  refuse (!isSlotId entry.2.vaultId) (stateInvalid "vault_id" entry.1 "expected a vault id")

def validateReceipt (entry : String × LocalImportReceipt) : Validated Unit :=
  refuse (!isSlotId entry.1 || !isChainId entry.2.sourceDigest ||
      (entry.2.hostIds.any fun id => !isHostId id) || entry.2.keyIds.any fun id => !isSlotId id)
    (stateInvalid "import_receipt" "state" "invalid import receipt identity")

def validateAccountRow (entry : String × LocalRecord) : Validated Unit := do
  validateCacheKey entry.1 entry.2
  let record := entry.2.record
  match record.kind with
  | .KeySlot => do
    let _ ← decodeKeyslot P record
  | .Meta =>
    if record.id = groupOrderId then
      refuse (GroupOrder.decode record).isNone
        (stateInvalid "group_order" record.id "invalid navigation metadata")
    else if record.id = accountMetaId && !record.deleted then validateAccountMeta record
    else .ok ()
  | .Host | .Group => .error (.WrongKind "account metadata" "host")
  | _ => .ok ()

def validateAccountSection (account : AccountState) : Validated Unit := do
  refuse (!isChainId account.chainId)
    (stateInvalid "chain_id" account.chainId "expected an account chain id")
  forEach account.records.toList (validateAccountRow P)
  validateSealed account.sealed true

def validateSpaceSection (entry : String × SpaceStateV3) : Validated Unit := do
  refuse (!isChainId entry.1) (stateInvalid "space_id" entry.1 "expected a chain id")
  validateHosts P entry.2.records (.Space entry.1)
  validateSealed entry.2.sealed false

/-- A record of the formats that have groups. -/
def groupedRow (row : LocalRecord) : Bool :=
  row.record.kind == .Group || (row.record.payload.get "schema").bind Json.asU64 == some 3

/-- The rows that need the state version with groups. -/
def groupedRows (state : SyncStateV3) : Bool :=
  !state.local.groups.isEmpty ||
    (state.local.hosts.values ++ state.spaces.values.flatMap (·.records.values)).any groupedRow

def validateLocal (state : SyncStateV3) : Validated Unit := do
  refuse (!GroupOrder.validIds state.local.groupOrder ||
      !state.local.groupOrder.isEmpty && decide (state.version < NAVIGATION_STATE_VERSION))
    (stateInvalid "group_order" "local" "invalid navigation format")
  validateHosts P state.local.hosts .Local
  forEach state.local.groups.toList validateGroupRow
  refuse (state.version == STATE_VERSION && groupedRows state)
    (stateInvalid "version" "state" "groups require state version 4")
  forEach state.local.keys.toList (validateLocalKey P)
  forEach state.local.importReceipts.toList validateReceipt

def validateGates (state : SyncStateV3) : Validated Unit := do
  refuse (!(state.version == STATE_VERSION || state.version == GROUP_STATE_VERSION ||
      state.version == NAVIGATION_STATE_VERSION)) (.UnsupportedSchema "state" state.version)
  refuse (!isSlotId state.deviceId) (stateInvalid "device_id" state.deviceId "expected a device id")
  refuse (state.account.isNone && !state.spaces.isEmpty)
    (stateInvalid "spaces" "state" "spaces require an account")
  forSome state.migrationGate fun gate => do
    refuse state.account.isNone
      (stateInvalid "migration_gate" "state" "a migration gate requires an account")
    validateMigrationGate gate
  refuse (state.sharedWritesBlocked && state.account.isNone)
    (stateInvalid "shared_writes_blocked" "state" "a shared write gate requires an account")

/-- `validate_state` for a state without a pending operation. -/
def validateSections (state : SyncStateV3) : Validated Unit := do
  validateGates state
  validateLocal P state
  forEach state.spaces.toList (validateSpaceSection P)
  forSome state.account (validateAccountSection P)

/-! ## The whole state -/

/-- The state with the prepared sections of the operation in place of its own. -/
def preparedState (state : SyncStateV3) (op : PendingAccountOperation) : SyncStateV3 :=
  { state with
    pendingAccount := none, account := some op.preparedAccount
    spaces :=
      match op.spaceId, op.preparedSpace with
      | some id, some space => (∅ : BTreeMap SpaceStateV3).insert id space
      | _, _ => ∅ }

/-- `pendingValid` is whether `validate_pending` accepts the operation. -/
def validateState (pendingValid : PendingAccountOperation → Bool) (state : SyncStateV3) :
    Validated Unit := do
  validateGates state
  forSome state.pendingAccount fun op => do
    refuse (!pendingValid op)
      (stateInvalid "pending_account" "state" "invalid pending account operation")
    validateSections P (preparedState state op)
  validateLocal P state
  forEach state.spaces.toList (validateSpaceSection P)
  forSome state.account (validateAccountSection P)

end

end Sshelter.Sync
