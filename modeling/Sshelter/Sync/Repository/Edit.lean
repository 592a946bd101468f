import Sshelter.Sync.Repository.Snapshot

/-! # Editing hosts and keys

The writing half of `record_repository.rs`.  Each operation checks the record it
names, writes a new revision of it and compares the library before and after: an
edit must not introduce a relationship defect, while defects that were already there
do not stop it.
-/

namespace Sshelter.Sync

/-! ## Formats of grouped hosts -/

/-- The account has moved to the format that has groups. -/
def accountGroupEnabled (state : SyncStateV3) : Bool :=
  state.account.any fun account =>
    account.records[recordKey .Meta accountMetaId]?.any fun row =>
      !row.record.deleted &&
        decide ((row.record.payload.get "schema_version").bind Json.asU64 = some 4)

def requireHostFormat (state : SyncStateV3) (p : HostPayload) (scope : HostScope) : Repo Unit := do
  let grouped := p.schema == GROUPED_HOST_SCHEMA
  refuse (grouped && decide (state.version < GROUP_STATE_VERSION)) .UpgradeConfirmationRequired
  refuse (grouped && scope != .Local && !accountGroupEnabled state) .UpgradeConfirmationRequired

/-! ## Transitions -/

/-- The host has a defect in `new` that it did not have in `old`. -/
def checkView (old new : List HostView) (view : HostView) : Repo Unit := do
  let host := view.host
  forSome view.groupError fun error =>
    refuse (!old.any fun other => other.host.id == host.id && other.groupError == some error)
      (.GroupDefect error)
  refuse (duplicateId new host.id && !duplicateId old host.id) (.Validation (.DuplicateId host.id))
  refuse (aliasConflict new host && !old.any fun other =>
      other.host.scope == host.scope && other.host.payload.aliasName == host.payload.aliasName &&
        aliasConflict old other.host)
    (.Validation (.AliasConflict host.payload.aliasName host.scope))
  match routeIndices new host.id with
  | .ok _ => .ok ()
  | .error error =>
    let missing := match error with
      | .MissingJump _ _ => true
      | _ => false
    if missing && needsImportReview host then .ok ()
    else
      match routeIndices old host.id with
      | .error before => refuse (before != error) (.Validation error)
      | .ok _ => .error (.Validation error)

section
variable (P : Primitives)

def validateTransition (before after : SyncStateV3) : Repo Unit := do
  let old ← listHosts P before
  let new ← listHosts P after
  forEach new (checkView old new)

/-- The host as the caller last saw it, in a scope that accepts writes. -/
def checkedHost (state : SyncStateV3) (id : String) (expected : RecordRevision) : Repo HostView := do
  let view ← getHost P state id
  refuse (view.revision != expected) (.RevisionConflict id view.revision)
  ensureScope state view.host.scope
  ensureHostAuthority state view.host
  return view

/-- Writes a new revision of a cached row and checks the transition.  A row that the
snapshot just read is there. -/
def replaceRow (state : SyncStateV3) (scope : HostScope) (id : String) (payload : Json)
    (deleted : Bool) (nowMs : Nat) : Repo SyncStateV3 := do
  let key := recordKey .Host id
  match (state.hostRecords scope)[key]? with
  | none => .error (.Validation (.HostNotFound id))
  | some previous => do
    let record ← orderedRecord state.deviceId id payload deleted nowMs [previous.record]
    let next := state.setHostRow scope key (cachedRow record previous.seq scope)
    validateTransition P state next
    return next

/-! ## Host operations -/

def createHost (state : SyncStateV3) (id : String) (scope : HostScope) (payload : HostPayload)
    (nowMs : Nat) : Repo SyncStateV3 := do
  ensureScope state scope
  requireHostFormat state payload scope
  let key := recordKey .Host id
  refuse (state.local.hosts.contains key || state.spaces.values.any fun space =>
      space.records.contains key)
    (.Validation (.DuplicateId id))
  -- A payload from the user interface cannot establish a pin.
  let payload := { payload with hostKey := none }
  (validateHost P { id, scope, payload }).toRepo
  let record ← orderedRecord state.deviceId id payload.toJson false nowMs []
  let next := state.setHostRow scope key (cachedRow record 0 scope)
  validateTransition P state next
  return next

def updateHost (state : SyncStateV3) (id : String) (expected : RecordRevision)
    (payload : HostPayload) (nowMs : Nat) : Repo SyncStateV3 := do
  let view ← checkedHost P state id expected
  requireHostFormat state payload view.host.scope
  let effective ← resolveEffective P state { view.host with payload }
  let sameEndpoint := view.effectivePayload.hostname == effective.payload.hostname &&
    view.effectivePayload.port == effective.payload.port
  let payload :=
    { payload with hostKey := if sameEndpoint then view.host.payload.hostKey else none }
  (validateHost P { view.host with payload }).toRepo
  replaceRow P state view.host.scope id payload.toJson false nowMs

def deleteHost (state : SyncStateV3) (id : String) (expected : RecordRevision) (nowMs : Nat) :
    Repo SyncStateV3 := do
  let view ← checkedHost P state id expected
  replaceRow P state view.host.scope id .null true nowMs

/-- One candidate holds the source tombstone and the live record of the destination. -/
def moveHost (state : SyncStateV3) (id : String) (expected : RecordRevision)
    (destination : HostScope) (nowMs : Nat) : Repo SyncStateV3 := do
  let view ← checkedHost P state id expected
  ensureScope state destination
  let origin := view.host.scope
  if origin = destination then .ok state
  else do
    let key := recordKey .Host id
    let existing := (state.hostRecords destination)[key]?
    refuse (existing.any fun row => !row.record.deleted) (.Validation (.DuplicateId id))
    forSome existing (validateCache key)
    match (state.hostRecords origin)[key]? with
    | none => .error (.Validation (.HostNotFound id))
    | some source => do
      let effective ← resolveEffective P state view.host
      let record ← orderedRecord state.deviceId id (materialize effective.payload).toJson false nowMs
        (source.record :: (existing.map (·.record)).toList)
      let tombstone := { record with deleted := true, payload := .null }
      let next := state.setHostRow origin key (cachedRow tombstone source.seq origin)
      let next := next.setHostRow destination key
        (cachedRow record ((existing.map (·.seq)).getD 0) destination)
      validateTransition P state next
      return next

def samePin (left right : StoredHostKey) : Bool :=
  left.algorithm == right.algorithm && left.publicKey == right.publicKey &&
    left.fingerprint == right.fingerprint

def sameEndpoint (payload : HostPayload) (endpoint : HostEndpoint) : Bool :=
  payload.hostname == endpoint.hostname && payload.port == endpoint.port

def forgetHostKey (state : SyncStateV3) (id : String) (expected : RecordRevision)
    (endpoint : HostEndpoint) (pin : StoredHostKey) (nowMs : Nat) : Repo SyncStateV3 := do
  let view ← checkedHost P state id expected
  refuse (!sameEndpoint view.effectivePayload endpoint) (.EndpointChanged id)
  refuse (view.host.payload.hostKey != some pin) (.PinConflict id)
  let payload := { view.host.payload with hostKey := none }
  replaceRow P state view.host.scope id payload.toJson false nowMs

/-- The pin the caller saw is the one that is stored. -/
def pinUnchanged (current previous : Option StoredHostKey) : Bool :=
  match current, previous with
  | none, none => true
  | some current, some previous => samePin current previous
  | _, _ => false

def pinHostKey (state : SyncStateV3) (id : String) (endpoint : HostEndpoint)
    (previousPin : Option StoredHostKey) (candidate : StoredHostKey) (nowMs : Nat) :
    Repo SyncStateV3 := do
  let view ← getHost P state id
  ensureScope state view.host.scope
  ensureHostAuthority state view.host
  refuse (view.groupError.isSome || !sameEndpoint view.effectivePayload endpoint)
    (.EndpointChanged id)
  let current := view.host.payload.hostKey
  if current.any fun pin => samePin pin candidate then .ok state
  else do
    refuse (!pinUnchanged current previousPin) (.PinConflict id)
    let candidate :=
      { candidate with pinnedAtMs := nowMs, pinnedByDeviceId := state.deviceId }
    let payload := { view.host.payload with hostKey := some candidate }
    (validateHost P { view.host with payload }).toRepo
    replaceRow P state view.host.scope id payload.toJson false nowMs

/-! ## Keys -/

def resolveKey (state : SyncStateV3) (id : String) : Repo KeyView := do
  let keys ← listKeys P state
  match keys.find? fun key => key.id == id with
  | some key => .ok key
  | none => .error (.KeyNotFound id)

/-- The new account revision of a renamed key slot. -/
def renameAccountKey (state : SyncStateV3) (id : String) («public» : KeySlotPayload) (nowMs : Nat) :
    Repo SyncStateV3 := do
  let key := recordKey .KeySlot id
  match state.account.bind fun account => account.records[key]? with
  | none => .error (.KeyNotFound id)
  | some previous => do
    let record ← orderedRecord state.deviceId id «public».toJson false nowMs [previous.record]
    return state.setAccountRow key
      { record := { record with kind := .KeySlot }, seq := previous.seq, dirty := true }

/-- A copy of the key on this device follows the new label. -/
def renameLocalKey (state : SyncStateV3) (id name : String) : SyncStateV3 :=
  match state.local.keys[id]? with
  | none => state
  | some material =>
    let renamed := { material with «public» := { material.public with name } }
    { state with «local» := { state.local with keys := state.local.keys.insert id renamed } }

def renameKey (state : SyncStateV3) (id : String) (expected : KeySlotPayload) (name : String)
    (nowMs : Nat) : Repo SyncStateV3 := do
  let name := Text.trim name
  refuse (!validSlotName name)
    (invalid "name" id "expected 1–64 letters, numbers, dots, dashes or underscores")
  let key ← resolveKey P state id
  refuse (key.status == .Conflict || key.status == .Deleted)
    (invalid "key" id "resolve the key conflict or deletion before renaming")
  refuse (key.public != some expected) (invalid "key" id "key metadata changed; refresh before renaming")
  refuse (key.authority == .Account && (accountWritesBlocked state || state.rotation)) .ReadOnlyAccount
  if expected.name = name then .ok state
  else do
    let renamed := { expected with name }
    (validateKeyslot P id renamed).toRepo
    let next ← if key.authority = .Account then renameAccountKey state id renamed nowMs else .ok state
    return renameLocalKey next id name

end

end Sshelter.Sync
