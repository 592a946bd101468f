import Sshelter.Sync.Groups.Edit
import Sshelter.Sync.StateChecks

/-! # The library

`record_library.rs`: one user-facing library over the records of this device and of the
spaces.  A device that takes part keeps its records in the library's space;
`includeExisting` moves what it kept for itself there.
-/

namespace Sshelter.Sync

def LIBRARY_SLUG : String := "sshelter-library"
def DEVICE_FLAG : String := "sync_library"

/-- This device keeps its records in the library. -/
def libraryEnabled (state : SyncStateV3) : Bool :=
  state.account.any fun account =>
    account.records[recordKey .Device state.deviceId]?.any fun row =>
      !row.record.deleted &&
        decide ((row.record.payload.get DEVICE_FLAG).bind Json.asBool = some true)

/-- The space that holds the library: of several, the one with the least id. -/
def librarySpace (state : SyncStateV3) : Option String := do
  let account ← state.account
  let spaces := account.records.values.filter fun row =>
    row.record.kind == .Space && !row.record.deleted &&
      decide ((row.record.payload.get "slug").bind Json.asStr = some LIBRARY_SLUG)
  (spaces.map (·.record.id)).min?

section
variable (P : Primitives)

/-! ## Retained records of the first format -/

/-- The ids of every host known in clear, live or deleted. -/
def knownHostIds (state : SyncStateV3) : List String :=
  ((state.local.hosts.values ++ state.spaces.values.flatMap (·.records.values)).filter fun row =>
    row.record.kind == .Host).map (·.record.id)

/-- Retained hosts of the first format in one space.  An alias whose wire identity is that of a
known host is not exempt, nor is one that cannot be read. -/
def retainedAliases (account : AccountState) (keys : ChainKeys) (hostIds : List String)
    (entry : String × SpaceStateV3) : List (String × String) :=
  let (id, space) := entry
  match spaceKeys P keys account id with
  | .ok (some child) =>
    (space.sealed.toList.filter fun (_, row) =>
      row.envelope.kind == "host" && row.publicIdentity.isNone &&
        isLegacyAliasHost P child row.envelope &&
        !hostIds.any fun id => idHash P child "host" id == row.envelope.idHash).map
      fun (wire, _) => (id, wire)
  | _ => []

def retainedLegacyAliases (state : SyncStateV3) (keys : Option ChainKeys) : List (String × String) :=
  match state.account, keys with
  | some account, some keys =>
    state.spaces.toList.flatMap (retainedAliases P account keys (knownHostIds state))
  | _, _ => []

/-! ## Moving this device's records into a space -/

/-- Every cached row of a local collection is well formed and of the collection's kind. -/
def checkCollection (expected : RecordKind) (rows : BTreeMap LocalRecord) : Repo Unit :=
  forEach rows.toList fun (key, row) => do
    validateCache key row
    refuse (row.record.kind != expected)
      (invalid "library" row.record.id "record kind does not match its source collection")

/-- The live records this device keeps for itself. -/
def localRows (state : SyncStateV3) : List LocalRecord :=
  (state.local.groups.values ++ state.local.hosts.values).filter fun row => !row.record.deleted

/-- The row's identity is free in one space: no live record has it, and no retained envelope of
its kind could. -/
def checkSpaceFree (retained : List (String × String)) (row : LocalRecord)
    (entry : String × SpaceStateV3) : Repo Unit := do
  let (spaceId, space) := entry
  let kind := row.record.kind
  refuse (space.sealed.toList.any fun (wire, other) =>
      other.envelope.kind == kind.asStr && other.publicIdentity.isNone &&
        !retained.contains (spaceId, wire))
    (.SpaceUnavailable "Some synced record identities cannot be read")
  refuse ((space.records[recordKey kind row.record.id]?).any (fun other => !other.record.deleted) ||
      space.sealed.toList.any fun (wire, other) =>
        other.envelope.kind == kind.asStr && !retained.contains (spaceId, wire) &&
          (other.publicIdentity.isNone || other.publicIdentity.any fun hint => hint.id == row.record.id))
    (.Validation (.DuplicateId row.record.id))

/-- The tombstone of a moved record on this device. -/
def setLocalRow (state : SyncStateV3) (kind : RecordKind) (key : String) (row : LocalRecord) :
    SyncStateV3 :=
  if kind = .Group then state.setGroupRow .Local key row else state.setHostRow .Local key row

/-- One record moves with its payload as it is; the revision follows both ends of the move. -/
def includeRow (state : SyncStateV3) (destination : String) (retained : List (String × String))
    (now : Nat) (next : SyncStateV3) (row : LocalRecord) : Repo SyncStateV3 := do
  let id := row.record.id
  let kind := row.record.kind
  let key := recordKey kind id
  forEach state.spaces.toList (checkSpaceFree retained row)
  let existing := (state.spaceRecords destination)[key]?
  forSome existing (validateCache key)
  let record ← orderedRecord state.deviceId id row.record.payload false now
    (row.record :: (existing.map (·.record)).toList)
  let record := { record with kind }
  let tombstone := { record with deleted := true, payload := .null }
  return (setLocalRow next kind key (cachedRow tombstone row.seq .Local)).setSpaceRow destination key
    (cachedRow record ((existing.map (·.seq)).getD 0) (.Space destination))

/-- The library can be written and is downloaded, as is every other selected space. -/
def libraryReady (state : SyncStateV3) (destination : String) : Repo Unit := do
  ensureScope state (.Space destination)
  refuse (!(state.spaces[destination]?).any (·.baselineEstablished) ||
      state.spaces.values.any fun space =>
        space.selected && !space.missing && !space.baselineEstablished)
    (.SpaceUnavailable "Finish downloading the library before including existing records")

/-- Grouped records need the grouped formats first. -/
def promoteForRows (state : SyncStateV3) (scope : HostScope) (rows : List LocalRecord)
    (confirmed : Bool) (now : Nat) : Repo SyncStateV3 :=
  if rows.any groupedRow then promote state scope confirmed now else .ok state

def includeExisting (pendingValid : PendingAccountOperation → Bool) (state : SyncStateV3)
    (destination : String) (confirmed : Bool) (now : Nat) (keys : Option ChainKeys) :
    Repo SyncStateV3 := do
  let scope := .Space destination
  libraryReady state destination
  checkCollection .Group state.local.groups
  checkCollection .Host state.local.hosts
  let rows := localRows state
  if rows.isEmpty then .ok state
  else do
    let retained := retainedLegacyAliases P state keys
    let next ← promoteForRows state scope rows confirmed now
    let next ← rows.foldlM (includeRow state destination retained now) next
    validateGroups next scope
    let next ← publishLocal P next keys now
    validateTransition P state next
    (validateState P pendingValid next).toRepo
    return next

/-- Run with every save: what cannot move stays on this device. -/
def includeNewRecords (pendingValid : PendingAccountOperation → Bool) (state : SyncStateV3)
    (keys : Option ChainKeys) : SyncStateV3 :=
  if !libraryEnabled state || accountWritesBlocked state then state
  else if (localRows state).isEmpty then state
  else
    match librarySpace state with
    | none => state
    | some id =>
      match includeExisting P pendingValid state id false 0 keys with
      | .ok next => next
      | .error _ => state

/-! ## Groups of the library -/

/-- The one group with this id, free of defects. -/
def libraryGroup (state : SyncStateV3) (id : String) : Repo GroupView := do
  let groups ← listGroups state
  match groups.filter fun view => view.group.id == id with
  | [view] =>
    if view.groupError.isSome then .error (.Group "Group is unavailable or needs review") else .ok view
  | _ => .error (.Group "Group is unavailable or needs review")

def groupScope (state : SyncStateV3) (id : String) : Repo HostScope := do
  let view ← libraryGroup state id
  ensureScope state view.group.scope
  return view.group.scope

/-- The group formats, before a host that needs them is written. -/
def promoteForHost (state : SyncStateV3) (scope : HostScope) (payload : HostPayload)
    (confirmed : Bool) (now : Nat) : Repo SyncStateV3 :=
  if payload.schema = GROUPED_HOST_SCHEMA then do
    ensureScope state scope
    promote state scope confirmed now
  else .ok state

/-- Where a library host goes with its group. -/
def updateDestination (state : SyncStateV3) (payload : HostPayload) : Repo (Option HostScope) :=
  if libraryEnabled state then
    match payload.groupId with
    | none => .ok none
    | some group => do return some (← groupScope state group)
  else .ok none

/-- The host moved to the scope, unless it is there. -/
def moveUnless (state : SyncStateV3) (id : String) (expected : RecordRevision) (current : HostScope)
    (destination : Option HostScope) (now : Nat) : Repo SyncStateV3 :=
  match destination.filter fun scope => scope != current with
  | some scope => moveHost P state id expected scope now
  | none => .ok state

/-- `record_library::update_host`: a host follows the group it is given. -/
def updateLibraryHost (state : SyncStateV3) (id : String) (expected : RecordRevision)
    (payload : HostPayload) (confirmed : Bool) (now : Nat) : Repo SyncStateV3 := do
  let saved ← getHost P state id
  let destination ← updateDestination state payload
  let moved ← moveUnless P state id expected saved.host.scope destination now
  let current ← getHost P moved id
  let expected := if current.host.scope != saved.host.scope then current.revision else expected
  let next ← promoteForHost moved current.host.scope payload confirmed now
  updateHost P next id expected payload now

/-- The scope of the group the host is put in. -/
def groupDestination (state : SyncStateV3) (host : HostRecord) : Option String → Repo HostScope
  | none => .ok host.scope
  | some id => do return (← libraryGroup state id).group.scope

/-- The settings a host keeps when it changes its group: the ones it had, as its own. -/
def regrouped (effective : HostPayload) (groupId : Option String) : HostPayload :=
  { materialize effective with
    schema := if groupId.isSome then GROUPED_HOST_SCHEMA else HOST_SCHEMA, groupId }

def setHostGroup (state : SyncStateV3) (id : String) (expected : RecordRevision)
    (groupId : Option String) (now : Nat) : Repo SyncStateV3 := do
  let view ← getHost P state id
  refuse (view.revision != expected) (.RevisionConflict id view.revision)
  if view.host.payload.groupId = groupId then .ok state
  else do
    let destination ← groupDestination state view.host groupId
    let next ← moveUnless P state id expected view.host.scope (some destination) now
    let current ← getHost P next id
    updateHost P next id current.revision (regrouped current.effectivePayload groupId) now

end

end Sshelter.Sync
