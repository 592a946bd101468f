import Sshelter.Sync.RecordMerge

/-! # Repository basics

The types and the shared checks of `record_repository.rs`.  Every operation is pure:
it returns a candidate state or an error.  The source formats a group defect with the
derived `Debug` text of the error and compares those texts; the text determines the
error, so the error itself stands for it here (`RepositoryError.GroupDefect`).
-/

namespace Sshelter.Sync

structure RecordRevision where
  version : Nat
  updatedAtMs : Nat
  deviceId : String
deriving DecidableEq, Repr

def revision (record : Record) : RecordRevision :=
  { version := record.version, updatedAtMs := record.updatedAtMs, deviceId := record.deviceId }

inductive RepositoryError where
  | Validation (error : RecordValidationError)
  | RevisionConflict (id : String) (current : RecordRevision)
  | SpaceUnavailable (spaceId : String)
  | ReadOnlyAccount
  | Group (reason : String)
  /-- `Group(error.to_string())`. -/
  | GroupDefect (error : RepositoryError)
  | UpgradeConfirmationRequired
  | OpaqueHostAuthority (id : String)
  | EndpointChanged (id : String)
  | PinConflict (id : String)
  | KeyNotFound (id : String)
  | OrderingOverflow (id : String)
deriving DecidableEq, Repr

abbrev Repo := Except RepositoryError

/-- `From<RecordValidationError>`. -/
def Validated.toRepo {α : Type} (result : Validated α) : Repo α :=
  result.mapError .Validation

def invalid (field id reason : String) : RepositoryError := .Validation (.Invalid field id reason)

def validateHeader (state : SyncStateV3) : Repo Unit := do
  refuse (!(state.version == STATE_VERSION || state.version == GROUP_STATE_VERSION ||
      state.version == NAVIGATION_STATE_VERSION))
    (.Validation (.UnsupportedSchema "state" state.version))
  refuse (!isSlotId state.deviceId) (invalid "device_id" state.deviceId "expected a device id")
  refuse (state.account.isNone && !state.spaces.isEmpty)
    (invalid "spaces" "state" "spaces require an account")
  forSome state.account fun account =>
    refuse (!isChainId account.chainId)
      (invalid "chain_id" account.chainId "expected an account chain id")
  forEach state.spaces.toList fun (id, _) =>
    refuse (!isChainId id) (invalid "space_id" id "expected a chain id")

def validateCache (key : String) (row : LocalRecord) : Repo Unit := do
  refuse row.record.kind.isSecret
    (invalid "records" row.record.id "secret records must remain sealed")
  refuse (key != recordKey row.record.kind row.record.id)
    (invalid "record_key" row.record.id "cache key does not match kind and id")
  refuse (row.record.version == 0 || !isSlotId row.record.deviceId)
    (invalid "revision" row.record.id "invalid record ordering identity")

/-- The retained envelope is about this record and wins over the cached row. -/
def opaqueShadows (sealed : SealedRecord) (row : Option LocalRecord) (kind : RecordKind)
    (id : String) : Bool :=
  match sealed.publicIdentity with
  | none => false
  | some identity =>
    identity.isValidFor sealed.envelope && identity.id == id && sealed.envelope.kind == kind.asStr &&
      merge row (identity.header kind) != .KeepLocal

/-- Some retained envelope of the section shadows the cached row. -/
def shadowed (sealed : BTreeMap SealedRecord) (row : Option LocalRecord) (kind : RecordKind)
    (id : String) : Bool :=
  sealed.values.any fun envelope => opaqueShadows envelope row kind id

def u64Max : Nat := 2 ^ 64 - 1

/-- `u64::checked_add(1)` for a record's version or time. -/
def checkedSucc (id : String) (n : Nat) : Repo Nat :=
  if n < u64Max then .ok (n + 1) else .error (.OrderingOverflow id)

/-- A new local revision, ordered after every given one. -/
def orderedRecord (deviceId id : String) (payload : Json) (deleted : Bool) (nowMs : Nat)
    (previous : List Record) : Repo Record := do
  let version ← checkedSucc id ((previous.map (·.version)).foldl max 0)
  let updatedAtMs ←
    match (previous.map (·.updatedAtMs)).max? with
    | none => .ok nowMs
    | some newest => if nowMs ≤ newest then checkedSucc id newest else .ok nowMs
  return { kind := .Host, id, version, updatedAtMs, deviceId, deleted, payload }

/-- The cached row of a local revision: rows of a space wait to be sent. -/
def cachedRow (record : Record) (seq : Nat) (scope : HostScope) : LocalRecord :=
  { record, seq, dirty := scope != .Local }

/-- Shared scopes need a joined account that accepts writes and a selected space. -/
def ensureScope (state : SyncStateV3) : HostScope → Repo Unit
  | .Local => .ok ()
  | .Space spaceId => do
    refuse state.account.isNone (.SpaceUnavailable spaceId)
    refuse (accountWritesBlocked state) .ReadOnlyAccount
    match state.spaces[spaceId]? with
    | none => .error (.SpaceUnavailable spaceId)
    | some space => refuse (!space.selected || space.missing) (.SpaceUnavailable spaceId)

/-! ## Sections of the state -/

namespace SyncStateV3

/-- `state.spaces[space_id].records` and `.sealed`; callers have checked that it is there. -/
def spaceRecords (state : SyncStateV3) (spaceId : String) : BTreeMap LocalRecord :=
  ((state.spaces[spaceId]?).map (·.records)).getD ∅

def spaceSealed (state : SyncStateV3) (spaceId : String) : BTreeMap SealedRecord :=
  ((state.spaces[spaceId]?).map (·.sealed)).getD ∅

def hostRecords (state : SyncStateV3) : HostScope → BTreeMap LocalRecord
  | .Local => state.local.hosts
  | .Space spaceId => state.spaceRecords spaceId

def setSpaceRow (state : SyncStateV3) (spaceId key : String) (row : LocalRecord) : SyncStateV3 :=
  match state.spaces[spaceId]? with
  | none => state
  | some space =>
    { state with
      spaces := state.spaces.insert spaceId { space with records := space.records.insert key row } }

def setHostRow (state : SyncStateV3) (scope : HostScope) (key : String) (row : LocalRecord) :
    SyncStateV3 :=
  match scope with
  | .Local => { state with «local» := { state.local with hosts := state.local.hosts.insert key row } }
  | .Space spaceId => state.setSpaceRow spaceId key row

def setGroupRow (state : SyncStateV3) (scope : HostScope) (key : String) (row : LocalRecord) :
    SyncStateV3 :=
  match scope with
  | .Local => { state with «local» := { state.local with groups := state.local.groups.insert key row } }
  | .Space spaceId => state.setSpaceRow spaceId key row

def setAccountRow (state : SyncStateV3) (key : String) (row : LocalRecord) : SyncStateV3 :=
  match state.account with
  | none => state
  | some account =>
    { state with account := some { account with records := account.records.insert key row } }

end SyncStateV3

end Sshelter.Sync
