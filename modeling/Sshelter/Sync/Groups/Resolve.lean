import Sshelter.Sync.Repository.Basic

/-! # Groups and inheritance

The reading half of `record_groups.rs`: the groups of a scope, the ancestors of a
group and the settings a host inherits from them.  A path longer than 32 groups or
one that repeats a group is an error, so following parents is bounded.
-/

namespace Sshelter.Sync

structure EffectiveHost where
  payload : HostPayload
  inheritedFrom : BTreeMap String
deriving DecidableEq

structure GroupView where
  group : GroupRecord
  revision : RecordRevision
  groupError : Option RepositoryError
deriving DecidableEq, Repr

/-- The longest chain of ancestors. -/
def maxAncestors : Nat := 32

/-- The rows that hold a scope's groups. -/
def groupRecords (state : SyncStateV3) : HostScope → Repo (BTreeMap LocalRecord)
  | .Local => .ok state.local.groups
  | .Space spaceId =>
    match (state.spaces[spaceId]?).filter fun space => space.selected && !space.missing with
    | some space => .ok space.records
    | none => .error (.SpaceUnavailable spaceId)

/-- The retained envelopes that can shadow a scope's groups. -/
def scopeSealed (state : SyncStateV3) : HostScope → BTreeMap SealedRecord
  | .Local => ∅
  | .Space spaceId => state.spaceSealed spaceId

section
variable (P : Primitives)

/-- One live group of a scope. -/
def group (state : SyncStateV3) (scope : HostScope) (id : String) : Repo GroupRecord := do
  let rows ← groupRecords state scope
  let key := recordKey .Group id
  let row := rows[key]?
  refuse (shadowed (scopeSealed state scope) row .Group id)
    (.Group ("group " ++ id ++ " has unsupported winning authority"))
  match row with
  | none => .error (.Group ("group " ++ id ++ " does not exist in this scope"))
  | some row => do
    validateCache key row
    let decoded ← (decodeGroup row.record scope).toRepo
    match decoded with
    | .Live group => .ok group
    | .Tombstone _ => .error (.Group ("group " ++ id ++ " was deleted"))

/-- The loop of `ancestor_path`; `path` is collected in reverse. -/
def ancestorLoop (state : SyncStateV3) (scope : HostScope) :
    Nat → List GroupRecord → List String → Option String → Repo (List GroupRecord)
  | _, path, _, none => .ok path.reverse
  | 0, _, _, some id =>
    .error (.Group ("group " ++ id ++ " has a cycle or exceeds 32 ancestors"))
  | fuel + 1, path, seen, some id =>
    if path.length = maxAncestors ∨ id ∈ seen then
      .error (.Group ("group " ++ id ++ " has a cycle or exceeds 32 ancestors"))
    else do
      let found ← group state scope id
      ancestorLoop state scope fuel (found :: path) (id :: seen) found.payload.parentId

/-- The group and its ancestors, nearest first.  The loop leaves at the 33rd group. -/
def ancestorPath (state : SyncStateV3) (scope : HostScope) (id : Option String) :
    Repo (List GroupRecord) :=
  ancestorLoop state scope (maxAncestors + 1) [] [] id

/-- The nearest group that sets a default, with its id. -/
def nearestDefault {α : Type} (path : List GroupRecord) (field : GroupDefaults → Option α) :
    Option (String × α) :=
  path.findSome? fun group => (field group.payload.defaults).map fun value => (group.id, value)

/-- One inherited field: the nearest group's value, or the built-in default. -/
def inheritField (path : List GroupRecord) (p : HostPayload) (field : InheritedField) :
    HostPayload × String :=
  let take {α : Type} (select : GroupDefaults → Option α) (default : α) (set : α → HostPayload) :
      HostPayload × String :=
    match nearestDefault path select with
    | some (id, value) => (set value, id)
    | none => (set default, "default")
  match field with
  | .Port => take (·.port) 22 fun port => { p with port }
  | .User => take (·.user) "" fun user => { p with user }
  | .Jump => take (·.jump) [] fun jump => { p with jump }
  | .KeepaliveSecs => take (·.keepaliveSecs) 30 fun keepaliveSecs => { p with keepaliveSecs }
  | .KeepaliveMaxMissed =>
    take (·.keepaliveMaxMissed) 3 fun keepaliveMaxMissed => { p with keepaliveMaxMissed }
  | .ConnectTimeoutSecs =>
    take (·.connectTimeoutSecs) 15 fun connectTimeoutSecs => { p with connectTimeoutSecs }
  | .Authentication =>
    take (·.authentication) { auth := .Password, keyId := none } fun authentication =>
      { p with auth := authentication.auth, keyId := authentication.keyId }

def inheritFields (path : List GroupRecord) (host : HostRecord) : EffectiveHost :=
  host.payload.inherit.foldl
    (fun effective field =>
      let (payload, source) := inheritField path effective.payload field
      { payload, inheritedFrom := effective.inheritedFrom.insert field.asStr source })
    { payload := host.payload, inheritedFrom := ∅ }

def resolveEffective (state : SyncStateV3) (host : HostRecord) : Repo EffectiveHost := do
  let path ← ancestorPath state host.scope host.payload.groupId
  let effective := inheritFields path host
  (validateHost P { host with payload := effective.payload }).toRepo
  return effective

/-- The settings of a host that has left its group. -/
def materialize (p : HostPayload) : HostPayload :=
  { p with groupId := none, inherit := [], schema := HOST_SCHEMA }

/-- The scopes whose records can be read: this device and every selected, present space. -/
def readableScopes (state : SyncStateV3) : List HostScope :=
  .Local :: ((state.spaces.toList.filter fun (_, space) => space.selected && !space.missing).map
    fun (id, _) => .Space id)

/-- One cached row as a group of the scope; other records and tombstones are skipped. -/
def readGroup (state : SyncStateV3) (scope : HostScope) (entry : String × LocalRecord) :
    Repo (List GroupView) :=
  let (key, row) := entry
  if row.record.kind != .Group then .ok []
  else do
    validateCache key row
    let decoded ← (decodeGroup row.record scope).toRepo
    match decoded with
    | .Tombstone _ => .ok []
    | .Live group =>
      let groupError :=
        match ancestorPath state scope (some group.id) with
        | .ok _ => none
        | .error error => some error
      .ok [{ group, revision := revision row.record, groupError }]

def readGroups (state : SyncStateV3) (scope : HostScope) : Repo (List GroupView) := do
  let rows ← groupRecords state scope
  return (← rows.toList.mapM (readGroup state scope)).flatten

def listGroups (state : SyncStateV3) : Repo (List GroupView) := do
  return (← (readableScopes state).mapM (readGroups state)).flatten

end

end Sshelter.Sync
