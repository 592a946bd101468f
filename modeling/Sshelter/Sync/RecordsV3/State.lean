import Sshelter.Sync.RecordsV3.Validate

/-! # Device state

`records_v3/state.rs` with the account section of `state_v2.rs` and the pending
operation of `record_account.rs`.  Public records are cached in clear under
`recordKey`; secrets and rows this version cannot read are kept as the relay's
ciphertext under `sealedKey`, with the verified public header of an unsupported
row beside it.
-/

namespace Sshelter.Sync

/-- `group_order::RECORD_ID`. -/
def groupOrderId : String := "library-group-order"

/-- Authenticated ordering evidence for an unsupported public record. -/
structure VerifiedPublicIdentity where
  id : String
  version : Nat
  updatedAtMs : Nat
  deviceId : String
  deleted : Bool
deriving DecidableEq, Repr

namespace VerifiedPublicIdentity

def isPublicId (kind id : String) : Bool :=
  if kind = "host" ∨ kind = "group" then isHostId id
  else if kind = "keyslot" then isSlotId id
  else if kind = "meta" then id == groupOrderId
  else false

def isValidFor (identity : VerifiedPublicIdentity) (envelope : Envelope) : Bool :=
  isPublicId envelope.kind identity.id && decide (0 < identity.version) &&
    isSlotId identity.deviceId && identity.deleted == envelope.deleted

def header (identity : VerifiedPublicIdentity) (kind : RecordKind) : Record :=
  { kind, id := identity.id, version := identity.version, updatedAtMs := identity.updatedAtMs,
    deviceId := identity.deviceId, deleted := identity.deleted, payload := .null }

end VerifiedPublicIdentity

structure SealedRecord where
  envelope : Envelope
  dirty : Bool
  publicIdentity : Option VerifiedPublicIdentity
deriving DecidableEq, Repr

structure FreezeInfo where
  detectedAtMs : Nat
deriving DecidableEq, Repr

structure AccountState where
  chainId : String
  cursorSeq : Nat
  baselineEstablished : Bool
  remoteSchemaVersion : Option UInt32
  frozen : Option FreezeInfo
  records : BTreeMap LocalRecord
  sealed : BTreeMap SealedRecord
deriving DecidableEq

def AccountState.new (chainId : String) : AccountState :=
  { chainId, cursorSeq := 0, baselineEstablished := false, remoteSchemaVersion := none,
    frozen := none, records := ∅, sealed := ∅ }

structure SpaceStateV3 where
  selected : Bool
  cursorSeq : Nat
  baselineEstablished : Bool
  records : BTreeMap LocalRecord
  sealed : BTreeMap SealedRecord
  missing : Bool
deriving DecidableEq

/-- `SpaceStateV3::default`. -/
def SpaceStateV3.default : SpaceStateV3 :=
  { selected := false, cursorSeq := 0, baselineEstablished := false, records := ∅, sealed := ∅,
    missing := false }

structure LocalKeyMetadata where
  vaultId : String
  «public» : KeySlotPayload
deriving DecidableEq, Repr

structure LocalImportReceipt where
  sourceDigest : String
  hostIds : List String
  keyIds : List String
deriving DecidableEq, Repr

structure LocalState where
  groupOrder : List String
  groups : BTreeMap LocalRecord
  hosts : BTreeMap LocalRecord
  keys : BTreeMap LocalKeyMetadata
  importReceipts : BTreeMap LocalImportReceipt
deriving DecidableEq

def LocalState.default : LocalState :=
  { groupOrder := [], groups := ∅, hosts := ∅, keys := ∅, importReceipts := ∅ }

/-! ## Pending account operations -/

inductive PendingAccountKind where
  | CreateAccount | JoinAccount | CreateSpace | LeaveAccount | RotateAccount
deriving DecidableEq, Repr

inductive PendingAccountPhase where
  | Prepared | RemoteCreated | Publishing | ActivationReady | Activated
deriving DecidableEq, Repr

inductive RotationStep where
  | Prepared | Freezing | Copying | Activating
deriving DecidableEq, Repr

structure RotationPlan where
  step : RotationStep
  sourceCodeAccount : String
  sourceAccount : AccountState
  sourceSpaces : BTreeMap SpaceStateV3
  spaceIds : BTreeMap String
  targetSpaces : BTreeMap SpaceStateV3
  frozen : List String
  created : List String
  sourceDigest : String
deriving DecidableEq

structure PendingAccountOperation where
  id : String
  deviceName : String
  kind : PendingAccountKind
  phase : PendingAccountPhase
  migrationGate : Option MigrationGate
  relayUrl : String
  stagedCodeAccount : Option String
  preparedAccount : AccountState
  spaceId : Option String
  preparedSpace : Option SpaceStateV3
  rotation : Option RotationPlan
deriving DecidableEq

structure SyncStateV3 where
  version : Nat
  deviceId : String
  deviceName : String
  relayUrl : String
  account : Option AccountState
  spaces : BTreeMap SpaceStateV3
  «local» : LocalState
  /-- An interrupted rotation of the previous state format; only its presence is read. -/
  rotation : Bool
  migrationGate : Option MigrationGate
  sharedWritesBlocked : Bool
  pendingAccount : Option PendingAccountOperation
  lastError : Option String
deriving DecidableEq

/-! ## Write gates -/

def validateMigrationGate (gate : MigrationGate) : Validated Unit := do
  refuse (!isSlotId gate.id)
    (.Invalid "migration_id" "migration" "expected 32 lowercase hex characters")
  refuse (!isChainId gate.sourceDigest)
    (.Invalid "source_digest" "migration" "expected a SHA-256 digest")

/-- The cached account marker says a migration is not finished, or cannot be read. -/
def accountMarkerPending (account : AccountState) : Bool :=
  match account.records[recordKey .Meta accountMetaId]? with
  | none => false
  | some row =>
    if row.record.deleted then false
    else
      match row.record.payload.get "migration" with
      | none | some .null => false
      | some value =>
        match MigrationGate.ofJson value with
        | none => true
        | some gate => gate.phase != .Active

def accountMigrationPending (state : SyncStateV3) : Bool :=
  state.migrationGate.any (fun gate => gate.phase != .Active) ||
    state.account.any accountMarkerPending

def accountWritesBlocked (state : SyncStateV3) : Bool :=
  state.pendingAccount.isSome || state.sharedWritesBlocked || accountMigrationPending state ||
    state.account.any fun account =>
      account.frozen.isSome || account.remoteSchemaVersion.any fun version => ACCOUNT_SCHEMA < version

end Sshelter.Sync
