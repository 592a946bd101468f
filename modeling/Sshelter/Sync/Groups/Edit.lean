import Sshelter.Sync.Repository.Edit

/-! # Editing groups

The writing half of `record_groups.rs` and `group_order::set`.  Every group edit ends in
`finish`: the groups of the edited scope must be well formed, no host may get worse, and
a pinned host whose effective port changed loses its pin in the same candidate.
-/

namespace Sshelter.Sync

/-- The group as the caller last saw it, unique and in a scope that accepts writes. -/
def checkedGroup (state : SyncStateV3) (id : String) (expected : RecordRevision) : Repo GroupView := do
  let all ← listGroups state
  match all.filter fun view => view.group.id == id with
  | [] => .error (.Group ("group " ++ id ++ " not found"))
  | [view] => do
    refuse (view.revision != expected) (.RevisionConflict id view.revision)
    ensureScope state view.group.scope
    let _ ← group state view.group.scope id
    return view
  | _ => .error (.Group ("duplicate group " ++ id))

/-- Acknowledged promotion of the state and, in a space, of the account format. -/
def promote (state : SyncStateV3) (scope : HostScope) (confirmed : Bool) (now : Nat) :
    Repo SyncStateV3 := do
  let upgradeAccount := scope != .Local && !accountGroupEnabled state
  refuse ((decide (state.version < GROUP_STATE_VERSION) || upgradeAccount) && !confirmed)
    .UpgradeConfirmationRequired
  let state := { state with version := max state.version GROUP_STATE_VERSION }
  if !upgradeAccount then .ok state
  else do
    let key := recordKey .Meta accountMetaId
    match state.account.bind fun account => account.records[key]? with
    | none => .error (.Group "account metadata missing")
    | some old => do
      let payload := old.record.payload.set "schema_version" (.num 4)
      let record ← orderedRecord state.deviceId accountMetaId payload false now [old.record]
      return state.setAccountRow key
        { record := { record with kind := .Meta }, seq := old.seq, dirty := true }

/-- Siblings of one scope have different names; `seen` are the names met so far. -/
def validateSiblings (state : SyncStateV3) (scope : HostScope) :
    List (Option String × String) → List GroupView → Repo Unit
  | _, [] => .ok ()
  | seen, view :: rest => do
    let _ ← ancestorPath state scope (some view.group.id)
    let name := (view.group.payload.parentId, view.group.payload.name)
    refuse (decide (name ∈ seen)) (.Group "duplicate group name under the same parent")
    validateSiblings state scope (name :: seen) rest

def validateGroups (state : SyncStateV3) (scope : HostScope) : Repo Unit := do
  let groups ← listGroups state
  validateSiblings state scope [] (groups.filter fun view => view.group.scope == scope)

/-- The pinned host answers on another port than before the edit. -/
def portChanged (old : List HostView) (view : HostView) : Bool :=
  view.host.payload.hostKey.isSome &&
    (old.find? fun other => other.host.id == view.host.id && other.host.scope == view.host.scope).any
      fun other => other.effectivePayload.port != view.effectivePayload.port

/-- A new revision of the host without its pin. -/
def clearPin (old : List HostView) (now : Nat) (next : SyncStateV3) (view : HostView) :
    Repo SyncStateV3 :=
  if !portChanged old view then .ok next
  else
    let key := recordKey .Host view.host.id
    let scope := view.host.scope
    match (next.hostRecords scope)[key]? with
    | none => .ok next
    | some row => do
      let version ← checkedSucc row.record.id row.record.version
      let later ← checkedSucc row.record.id row.record.updatedAtMs
      let payload := { view.host.payload with hostKey := none }
      let record :=
        { row.record with
          version, updatedAtMs := max now later, deviceId := next.deviceId, payload := payload.toJson }
      return next.setHostRow scope key (cachedRow record row.seq scope)

section
variable (P : Primitives)

def finish (before next : SyncStateV3) (scope : HostScope) (now : Nat) : Repo SyncStateV3 := do
  validateGroups next scope
  validateTransition P before next
  let old ← listHosts P before
  let new ← listHosts P next
  new.foldlM (clearPin old now) next

/-! ## Remote changes -/

/-- The pinned host resolves to another port, or its group defect changed. -/
def pinStale (old : List HostView) (view : HostView) : Bool :=
  view.host.payload.hostKey.isSome &&
    (old.find? fun other => other.host.id == view.host.id && other.host.scope == view.host.scope).any
      fun other => other.effectivePayload.port != view.effectivePayload.port ||
        other.groupError != view.groupError

def invalidatePin (old : List HostView) (next : SyncStateV3) (view : HostView) : Repo SyncStateV3 :=
  if !pinStale old view then .ok next
  else
    let key := recordKey .Host view.host.id
    let scope := view.host.scope
    match (next.hostRecords scope)[key]? with
    | none => .ok next
    | some row => do
      let version ← checkedSucc view.host.id row.record.version
      let updatedAtMs ← checkedSucc view.host.id row.record.updatedAtMs
      let record :=
        { row.record with
          payload := row.record.payload.set "host_key" .null, version, updatedAtMs
          deviceId := next.deviceId }
      return next.setHostRow scope key (cachedRow record row.seq scope)

/-- Remote group changes also invalidate pins before the merged candidate reaches disk. -/
def invalidateChangedPins (before next : SyncStateV3) : Repo SyncStateV3 := do
  let old ← listHosts P before
  let new ← listHosts P next
  new.foldlM (invalidatePin old) next

/-! ## Group operations -/

def trimName (payload : GroupPayload) : GroupPayload := { payload with name := Text.trim payload.name }

/-- The records of `create_group` before `finish`. -/
def createdGroup (state : SyncStateV3) (id : String) (scope : HostScope) (payload : GroupPayload)
    (confirmed : Bool) (now : Nat) : Repo SyncStateV3 := do
  ensureScope state scope
  let payload := trimName payload
  (validateGroup { id, scope, payload }).toRepo
  let key := recordKey .Group id
  refuse (state.local.groups.contains key || state.spaces.values.any fun space =>
      space.records.contains key)
    (.Group "group identity already exists")
  let next ← promote state scope confirmed now
  let record ← orderedRecord next.deviceId id payload.toJson false now []
  return next.setGroupRow scope key (cachedRow { record with kind := .Group } 0 scope)

def createGroup (state : SyncStateV3) (id : String) (scope : HostScope) (payload : GroupPayload)
    (confirmed : Bool) (now : Nat) : Repo SyncStateV3 := do
  let next ← createdGroup state id scope payload confirmed now
  finish P state next scope now

/-- A new revision of a group that was just checked. -/
def putGroup (origin next : SyncStateV3) (scope : HostScope) (id : String) (payload : Json)
    (deleted : Bool) (now : Nat) : Repo SyncStateV3 := do
  let key := recordKey .Group id
  let rows ← groupRecords origin scope
  match rows[key]? with
  | none => .error (.Group ("group " ++ id ++ " does not exist in this scope"))
  | some old => do
    let record ← orderedRecord origin.deviceId id payload deleted now [old.record]
    return next.setGroupRow scope key (cachedRow { record with kind := .Group } old.seq scope)

/-- The scope and the records of `update_group` before `finish`. -/
def updatedGroup (state : SyncStateV3) (id : String) (expected : RecordRevision)
    (payload : GroupPayload) (now : Nat) : Repo (HostScope × SyncStateV3) := do
  let view ← checkedGroup state id expected
  let scope := view.group.scope
  let payload := trimName payload
  (validateGroup { id, scope, payload }).toRepo
  let next ← putGroup state state scope id payload.toJson false now
  return (scope, next)

def updateGroup (state : SyncStateV3) (id : String) (expected : RecordRevision)
    (payload : GroupPayload) (now : Nat) : Repo SyncStateV3 := do
  let (scope, next) ← updatedGroup state id expected payload now
  finish P state next scope now

/-- One pass over the scope's groups, adding those whose parent is already removed. -/
def removeChildren (groups : List GroupView) (removed : BTreeMap Unit) : BTreeMap Unit :=
  groups.foldl
    (fun removed view =>
      if view.group.payload.parentId.any fun parent => removed.contains parent then
        removed.insert view.group.id ()
      else removed)
    removed

/-- Passes until nothing is added; each earlier pass adds a group, which bounds them. -/
def removedSubtree (groups : List GroupView) : Nat → BTreeMap Unit → BTreeMap Unit
  | 0, removed => removed
  | fuel + 1, removed =>
    let next := removeChildren groups removed
    if next.size = removed.size then next else removedSubtree groups fuel next

/-- The group and everything below it in its scope. -/
def removedGroups (groups : List GroupView) (scope : HostScope) (id : String) : BTreeMap Unit :=
  let siblings := groups.filter fun view => view.group.scope == scope
  removedSubtree siblings (siblings.length + 1) ((∅ : BTreeMap Unit).insert id ())

/-- The hosts that belong to a removed group. -/
def groupMembers (library : RepositorySnapshot) (scope : HostScope) (removed : BTreeMap Unit) :
    List HostView :=
  library.hosts.filter fun view =>
    view.host.scope == scope && view.host.payload.groupId.any fun parent => removed.contains parent

/-- A host that leaves a removed group keeps the settings it inherited. -/
def materializeHost (state : SyncStateV3) (now : Nat) (next : SyncStateV3) (view : HostView) :
    Repo SyncStateV3 := do
  let resolved ← resolveEffective P state view.host
  updateHost P next view.host.id view.revision (materialize resolved.payload) now

def removeGroup (state : SyncStateV3) (scope : HostScope) (now : Nat) (next : SyncStateV3)
    (id : String) : Repo SyncStateV3 := do
  -- Winning opaque descendants must never be silently deleted.
  let _ ← group state scope id
  putGroup state next scope id .null true now

/-- The scope and the records of `delete_group` before `finish`.  `token` is the digest of the
snapshot the caller reviewed. -/
def deletedGroups (token : RepositorySnapshot → String) (state : SyncStateV3) (id : String)
    (expected : RecordRevision) (reviewedSnapshot : Option String) (now : Nat) :
    Repo (HostScope × SyncStateV3) := do
  let root ← checkedGroup state id expected
  let library ← snapshot P state
  refuse (reviewedSnapshot != some (token library))
    (.Group "Group deletion review is missing or stale. Refresh the records and review the deletion again.")
  let scope := root.group.scope
  refuse ((scopeSealed state scope).values.any fun row =>
      row.envelope.kind == "group" && !row.envelope.deleted)
    (.Group "unreadable groups prevent subtree deletion")
  let groups ← listGroups state
  let removed := removedGroups groups scope id
  let next ← (groupMembers library scope removed).foldlM (materializeHost P state now) state
  let next ← (removed.toList.map (·.1)).foldlM (removeGroup state scope now) next
  return (scope, next)

def deleteGroup (token : RepositorySnapshot → String) (state : SyncStateV3) (id : String)
    (expected : RecordRevision) (reviewedSnapshot : Option String) (now : Nat) :
    Repo SyncStateV3 := do
  let (scope, next) ← deletedGroups P token state id expected reviewedSnapshot now
  finish P state next scope now

end

/-! ## Navigation order -/

structure OrderView where
  ids : List String
  revision : Option RecordRevision
  blocked : Bool
deriving DecidableEq, Repr

def orderView (state : SyncStateV3) : OrderView :=
  match state.account with
  | none => { ids := state.local.groupOrder, revision := none, blocked := false }
  | some account =>
    let row := account.records[recordKey .Meta groupOrderId]?
    let hidden := shadowed account.sealed row .Meta groupOrderId
    { ids :=
        if hidden then []
        else
          match row.bind fun row => GroupOrder.decode row.record with
          | some order => order.ids
          | none => state.local.groupOrder
      revision := row.map fun row => revision row.record
      blocked := hidden || accountWritesBlocked state }

/-- `group_order::set`. -/
def setGroupOrder (state : SyncStateV3) (expectedIds : List String)
    (expectedRevision : Option RecordRevision) (ids : List String) (now : Nat) : Repo SyncStateV3 := do
  let current := orderView state
  refuse current.blocked .ReadOnlyAccount
  refuse (current.ids != expectedIds || current.revision != expectedRevision)
    (invalid "group_order" groupOrderId "Group order changed; refresh and try again.")
  refuse (!GroupOrder.validIds ids)
    (invalid "group_order" groupOrderId "Invalid or duplicate group identities.")
  let groups ← listGroups state
  forEach ids fun id =>
    refuse (!current.ids.contains id && !groups.any fun view => view.group.id == id)
      (invalid "group_order" id "Group is no longer available.")
  if ids = current.ids then .ok state
  else do
    let next := { state with version := max state.version NAVIGATION_STATE_VERSION }
    match state.account with
    | none => return { next with «local» := { next.local with groupOrder := ids } }
    | some account => do
      let key := recordKey .Meta groupOrderId
      let previous := account.records[key]?
      let record ← orderedRecord state.deviceId groupOrderId
        (GroupOrder.toJson { schema := 1, ids }) false now (previous.map (·.record)).toList
      return next.setAccountRow key
        { record := { record with kind := .Meta }, seq := (previous.map (·.seq)).getD 0, dirty := true }

/-- An account `meta` row without a verified header may be the order of a newer client.  With the
account's keys only its own hashed identity counts. -/
def blockedByOpaque (P : Primitives) (state : SyncStateV3) (keys : Option ChainKeys) : Bool :=
  match state.account with
  | none => false
  | some account =>
    let unnamed := account.sealed.values.filter fun row =>
      row.envelope.kind == "meta" && row.publicIdentity.isNone
    if unnamed.isEmpty then false
    else
      match keys.filter fun keys => keys.chainId == account.chainId with
      | none => true
      | some keys => unnamed.any fun row => row.envelope.idHash == idHash P keys "meta" groupOrderId

/-- Publishes the order kept from before the account, once. -/
def publishLocal (P : Primitives) (state : SyncStateV3) (keys : Option ChainKeys) (now : Nat) :
    Repo SyncStateV3 :=
  match state.account with
  | none => .ok state
  | some account => do
    let key := recordKey .Meta groupOrderId
    if state.local.groupOrder.isEmpty || account.records.contains key then .ok state
    else do
      refuse (blockedByOpaque P state keys) .ReadOnlyAccount
      refuse (shadowed account.sealed none .Meta groupOrderId) .ReadOnlyAccount
      let record ← orderedRecord state.deviceId groupOrderId
        (GroupOrder.toJson { schema := 1, ids := state.local.groupOrder }) false now []
      return state.setAccountRow key
        { record := { record with kind := .Meta }, seq := 0, dirty := true }

end Sshelter.Sync
