import Sshelter.Sync.Library
import Sshelter.Sync.RecordsV3.HostSet

/-! # Leaving the account

`record_leave.rs`: the records of every selected space are copied to this device under new
random ids, and the account and its spaces are dropped.  The plan is made and checked before
anything is written; activating it is one change of the state.  What the relay answers for a
space and the random ids are parameters: `draws` is what the random source gives, one id a
call, until it fails.
-/

namespace Sshelter.Sync.RecordLeave

structure HostRemap where
  sourceSpaceId : String
  sourceHostId : String
  localHostId : String
  aliasName : String
deriving DecidableEq, Repr

structure PlannedHost where
  mapping : HostRemap
  «local» : LocalRecord
deriving DecidableEq

structure PlannedGroup where
  sourceSpaceId : String
  sourceGroupId : String
  localGroupId : String
  «local» : LocalRecord
deriving DecidableEq

structure LeavePlan where
  groups : List PlannedGroup
  sourceSpaces : BTreeMap SpaceStateV3
  hosts : List PlannedHost
  passwordsCopied : List String
deriving DecidableEq

abbrev Leave := Except AppError

/-- `map_err`: the failure is reported with a text of its own. -/
def orFail {ε α : Type} (result : Except ε α) (text : String) : Leave α :=
  result.mapError fun _ => .Other text

/-- `ok_or_else`. -/
def orMissing {α : Type} (found : Option α) (text : String) : Leave α :=
  match found with
  | some value => .ok value
  | none => .error (.Other text)

/-- The live record, or the failure for a tombstone. -/
def orDeleted {α : Type} (decoded : TypedRecord α) (text : String) : Leave α :=
  match decoded with
  | .Live value => .ok value
  | .Tombstone _ => .error (.Other text)

def remappedGroupName (name id : String) : String := String.ofList (name.toList.take 111) ++ "-" ++ id

def remappedAlias (aliasName id : String) : String := aliasName ++ "-" ++ id

/-! ## References -/

/-- A reference that has a new id gets it; any other stays. -/
def remapped (remap : BTreeMap String) (id : String) : String := (remap[id]?).getD id

/-- A group that the record needs: without a new id the record cannot be kept. -/
def remapGroup (remap : BTreeMap String) (text : String) : Option String → Leave (Option String)
  | none => .ok none
  | some id => do return some (← orMissing remap[id]? text)

def remapHostPayload (jumps : BTreeMap String) (groupId : Option String) (p : HostPayload) : HostPayload :=
  { p with groupId, jump := p.jump.map (remapped jumps) }

def remapGroupPayload (jumps : BTreeMap String) (parentId : Option String) (p : GroupPayload) : GroupPayload :=
  { p with
    parentId, defaults := { p.defaults with jump := p.defaults.jump.map (List.map (remapped jumps)) } }

/-! ## Checking a plan -/

/-- The new id of every planned host, by its source id. -/
def LeavePlan.hostRemap (plan : LeavePlan) : BTreeMap String :=
  plan.hosts.foldl (fun remap host => remap.insert host.mapping.sourceHostId host.mapping.localHostId) ∅

def LeavePlan.groupRemap (plan : LeavePlan) : BTreeMap String :=
  plan.groups.foldl (fun remap group => remap.insert group.sourceGroupId group.localGroupId) ∅

/-- The new ids and the sources met so far. -/
structure PlanSeen where
  ids : List String
  sources : List (String × String)

def PlanSeen.add (seen : PlanSeen) (id : String) (source : String × String) : PlanSeen :=
  { ids := id :: seen.ids, sources := source :: seen.sources }

def PlanSeen.repeats (seen : PlanSeen) (id : String) (source : String × String) : Bool :=
  seen.ids.contains id || seen.sources.contains source

/-- The row of a source space. -/
def LeavePlan.source (plan : LeavePlan) (spaceId : String) (kind : RecordKind) (id : String) :
    Option LocalRecord :=
  (plan.sourceSpaces[spaceId]?).bind fun space => space.records[recordKey kind id]?

section
variable (P : Primitives)

def validateSourceRow (spaceId : String) (entry : String × LocalRecord) : Leave Unit := do
  let (key, row) := entry
  let record := row.record
  refuse (key != recordKey record.kind record.id || !(record.kind == .Host || record.kind == .Group))
    (.Other "invalid leave source row")
  if record.kind = .Group then do
    let _ ← orFail (decodeGroup record (.Space spaceId)) "invalid leave source group"
  else do
    let _ ← orFail (decodeHost P record (.Space spaceId)) "invalid leave source host"

def validateSourceSpace (entry : String × SpaceStateV3) : Leave Unit := do
  let (id, space) := entry
  refuse (!isChainId id || !space.selected || space.missing) (.Other "invalid leave source space")
  forEach space.records.toList (validateSourceRow P id)

/-- The planned row is the source's host under its new id and alias, references remapped. -/
def validatePlannedHost (plan : LeavePlan) (seen : PlanSeen) (host : PlannedHost) : Leave PlanSeen := do
  let m := host.mapping
  let from_ := (m.sourceSpaceId, m.sourceHostId)
  refuse (!isHostId m.localHostId || seen.repeats m.localHostId from_)
    (.Other "invalid leave mapping identity")
  let source ← orMissing ((plan.source m.sourceSpaceId .Host m.sourceHostId).filter
    fun row => !row.record.deleted) "leave mapping has no source"
  let decoded ← orFail (decodeHost P host.local.record .Local) "invalid planned local host"
  let «local» ← orDeleted decoded "leave plan cannot copy a tombstone"
  let decoded ← orFail (decodeHost P source.record .Local) "invalid leave source host"
  let expected ← orDeleted decoded "leave source is deleted"
  refuse (m.aliasName != expected.payload.aliasName &&
      m.aliasName != remappedAlias expected.payload.aliasName m.localHostId)
    (.Other "leave alias is not a stable source remap")
  let groupId ← remapGroup plan.groupRemap "missing preserved group" expected.payload.groupId
  let payload := remapHostPayload plan.hostRemap groupId { expected.payload with aliasName := m.aliasName }
  refuse («local».payload != payload) (.Other "leave plan does not preserve its source host")
  refuse («local».id != m.localHostId || «local».payload.aliasName != m.aliasName || host.local.seq != 0 ||
      host.local.dirty || source.record.id != m.sourceHostId)
    (.Other "inconsistent leave mapping")
  return seen.add m.localHostId from_

def validatePlannedGroup (plan : LeavePlan) (seen : PlanSeen) (planned : PlannedGroup) : Leave PlanSeen := do
  let from_ := (planned.sourceSpaceId, planned.sourceGroupId)
  refuse (seen.repeats planned.localGroupId from_) (.Other "duplicate preserved group identity")
  let source ← orMissing (plan.source planned.sourceSpaceId .Group planned.sourceGroupId)
    "group source missing"
  let decoded ← orFail (decodeGroup source.record .Local) "invalid group source"
  let expected ← orDeleted decoded "deleted group source"
  let decoded ← orFail (decodeGroup planned.local.record .Local) "invalid preserved group"
  let «local» ← orDeleted decoded "deleted preserved group"
  let parentId ← remapGroup plan.groupRemap "missing preserved parent" expected.payload.parentId
  let payload := remapGroupPayload plan.hostRemap parentId expected.payload
  refuse («local».payload.name != payload.name &&
      «local».payload.name != remappedGroupName payload.name planned.localGroupId)
    (.Other "group name is not a stable remap")
  refuse («local».id != planned.localGroupId ||
      «local».payload != { payload with name := «local».payload.name } ||
      planned.local.seq != 0 || planned.local.dirty)
    (.Other "group preservation mismatch")
  return seen.add planned.localGroupId from_

def liveCount (space : SpaceStateV3) : Nat := space.records.values.countP fun row => !row.record.deleted

def validatePlan (plan : LeavePlan) : Leave Unit := do
  forEach plan.sourceSpaces.toList (validateSourceSpace P)
  let seen ← plan.hosts.foldlM (validatePlannedHost P plan) { ids := [], sources := [] }
  let _ ← plan.groups.foldlM (validatePlannedGroup plan) seen
  refuse (plan.passwordsCopied.any fun id => !plan.hosts.any fun host => host.mapping.localHostId == id)
    (.Other "invalid leave credential receipt")
  refuse ((plan.sourceSpaces.values.map liveCount).sum != plan.hosts.length + plan.groups.length)
    (.Other "incomplete leave plan")

end

/-! ## The source spaces -/

section
variable (P : Primitives)

/-- A retained live host or group that is not an old-format alias the library can do without. -/
def unreadable (child : ChainKeys) (space : SpaceStateV3) (row : SealedRecord) : Bool :=
  (row.envelope.kind == "group" || row.envelope.kind == "host") && !row.envelope.deleted &&
    (!isLegacyAliasHost P child row.envelope || space.records.values.any fun known =>
      known.record.kind == .Host && idHash P child "host" known.record.id == row.envelope.idHash)

/-- One selected space as the relay has it now, with the edits that were not sent. -/
def sourceSpace (account : AccountState) (keys : ChainKeys) (pull : String → Option PullResponse)
    (out : BTreeMap SpaceStateV3) (entry : String × SpaceStateV3) : Leave (BTreeMap SpaceStateV3) := do
  let (id, old) := entry
  refuse old.missing (.Other "a selected space is missing; local preservation did not complete")
  let child ← spaceKeys P keys account id
  let child ← orMissing child "a selected space is unavailable; local preservation did not complete"
  let pulled ← orMissing (pull id) "a selected space could not be read; local preservation did not complete"
  let merged := mergeSpace P child old pulled 0 .Compatible
  refuse (merged.gate != .Compatible || !merged.baselineEstablished ||
      merged.section_.sealed.values.any (unreadable P child merged.section_))
    (.Other "a selected space has unreadable hosts or groups; local preservation did not complete")
  let unsent := old.records.toList.filter fun (_, row) => row.dirty
  let records := unsent.foldl (fun records (key, row) => records.insert key row) merged.section_.records
  return out.insert id { merged.section_ with records }

def sourceSpaces (account : AccountState) (keys : ChainKeys) (pull : String → Option PullResponse)
    (cached : BTreeMap SpaceStateV3) : Leave (BTreeMap SpaceStateV3) :=
  (cached.toList.filter fun (_, space) => space.selected).foldlM (sourceSpace P account keys pull) ∅

/-! ## Making a plan -/

def localHost (row : LocalRecord) : Leave HostRecord := do
  let decoded ← orFail (decodeHost P row.record .Local) "invalid local host"
  orDeleted decoded "invalid local host"

def localHosts (state : SyncStateV3) : Leave (List HostRecord) :=
  (state.local.hosts.values.filter fun row => !row.record.deleted).mapM (localHost P)

end

/-- The live rows to copy, with the space of each. -/
def liveRows (spaces : BTreeMap SpaceStateV3) : List (String × LocalRecord) :=
  spaces.toList.flatMap fun (id, space) =>
    (space.records.values.filter fun row => !row.record.deleted).map fun row => (id, row)

/-- `new_id` until it gives an id that is not in use. -/
def freshId (used : List String) : List String → Leave (String × List String)
  | [] => .error (.Other "cannot create local preservation identity")
  | id :: rest => if used.contains id then freshId used rest else .ok (id, rest)

/-- A live row with its space and its new id. -/
structure Assigned where
  spaceId : String
  source : LocalRecord
  id : String

structure Assigning where
  used : List String
  draws : List String
  remap : BTreeMap String
  rows : List Assigned

def assignId (localIds : List String) (current : Assigning) (entry : String × LocalRecord) :
    Leave Assigning := do
  let (spaceId, source) := entry
  refuse (localIds.contains source.record.id || current.remap.contains source.record.id)
    (.Other "duplicate source host identity requires review before leaving")
  let (id, draws) ← freshId current.used current.draws
  .ok
    { used := id :: current.used, draws, remap := current.remap.insert source.record.id id
      rows := current.rows ++ [{ spaceId, source, id }] }

/-- The ids of every host and group kept on this device, live or deleted. -/
def localIds (state : SyncStateV3) : List String :=
  (state.local.hosts.values ++ state.local.groups.values).map (·.record.id)

def assignIds (state : SyncStateV3) (spaces : BTreeMap SpaceStateV3) (draws : List String) : Leave Assigning :=
  let used := localIds state ++ spaces.values.flatMap fun space => space.records.values.map (·.record.id)
  (liveRows spaces).foldlM (assignId (localIds state)) { used, draws, remap := ∅, rows := [] }

/-- The local copy of a source row. -/
def copiedRow (deviceId : String) (now : Nat) (source : Record) (id : String) (payload : Json) : LocalRecord :=
  { record := { source with id, version := 1, updatedAtMs := now, deviceId, payload }, seq := 0
    dirty := false }

/-- What the loop over the rows keeps: the names and aliases in use, the hosts this device will have
and the copies made so far. -/
structure Planning where
  names : List (Option String × String)
  aliases : List String
  existing : List HostRecord
  hosts : List PlannedHost
  groups : List PlannedGroup

def planGroup (deviceId : String) (now : Nat) (remap : BTreeMap String) (current : Planning) (row : Assigned) :
    Leave Planning := do
  let decoded ← orFail (decodeGroup row.source.record .Local) "invalid source group"
  -- the rows are live ones
  let group ← orDeleted decoded "internal error: entered unreachable code"
  let parentId ← remapGroup remap "missing source parent" group.payload.parentId
  let payload := remapGroupPayload remap parentId group.payload
  let taken := current.names.contains (payload.parentId, payload.name)
  let named := if taken then { payload with name := remappedGroupName payload.name row.id } else payload
  let planned : PlannedGroup :=
    { sourceSpaceId := row.spaceId, sourceGroupId := row.source.record.id, localGroupId := row.id
      «local» := copiedRow deviceId now row.source.record row.id named.toJson }
  .ok
    { current with
      names := (payload.parentId, payload.name) :: current.names, groups := current.groups ++ [planned] }

/-- The alias, with the new id behind it when another host has it. -/
def freeAlias (aliases : List String) (aliasName id : String) : Leave String :=
  if aliases.contains aliasName then do
    refuse (aliases.contains (remappedAlias aliasName id)) (.Other "local alias collision requires review")
    return remappedAlias aliasName id
  else .ok aliasName

section
variable (P : Primitives)

def planHost (deviceId : String) (now : Nat) (remap : BTreeMap String) (current : Planning) (row : Assigned) :
    Leave Planning := do
  let decoded ← orFail (decodeHost P row.source.record .Local) "source host needs review before leaving"
  let host ← orDeleted decoded "internal error: entered unreachable code"
  let groupId ← remapGroup remap "missing source group" host.payload.groupId
  let aliasName ← freeAlias current.aliases host.payload.aliasName row.id
  let payload := { remapHostPayload remap groupId host.payload with aliasName }
  let planned : PlannedHost :=
    { mapping :=
        { sourceSpaceId := row.spaceId, sourceHostId := row.source.record.id, localHostId := row.id, aliasName }
      «local» := copiedRow deviceId now row.source.record row.id payload.toJson }
  .ok
    { current with
      aliases := aliasName :: current.aliases
      existing := current.existing ++ [{ id := row.id, scope := .Local, payload }]
      hosts := current.hosts ++ [planned] }

def planRow (deviceId : String) (now : Nat) (remap : BTreeMap String) (current : Planning) (row : Assigned) :
    Leave Planning :=
  if row.source.record.kind = .Group then planGroup deviceId now remap current row
  else planHost P deviceId now remap current row

/-- The hosts with the settings they inherit in this state. -/
def effectiveHosts (state : SyncStateV3) (hosts : List HostRecord) : Repo (List HostRecord) :=
  hosts.mapM fun host => do
    let effective ← resolveEffective P state host
    return { host with payload := effective.payload }

def addGroup (groups : BTreeMap LocalRecord) (planned : PlannedGroup) : BTreeMap LocalRecord :=
  groups.insert (recordKey .Group planned.localGroupId) planned.local

/-- The groups of this device together with the planned ones, and no space. -/
def candidateState (state : SyncStateV3) (groups : List PlannedGroup) : SyncStateV3 :=
  { state with
    spaces := ∅, «local» := { state.local with groups := groups.foldl addGroup state.local.groups } }

/-- The names of the groups on this device, under their parents. -/
def localNames (state : SyncStateV3) : Leave (List (Option String × String)) := do
  let groups ← orFail (listGroups state) "invalid existing groups"
  return (groups.filter fun view => view.group.scope == .Local).map fun view =>
    (view.group.payload.parentId, view.group.payload.name)

def plan (state : SyncStateV3) (spaces : BTreeMap SpaceStateV3) (draws : List String) (now : Nat) :
    Leave LeavePlan := do
  let existing ← localHosts P state
  let assigned ← assignIds state spaces draws
  let names ← localNames state
  let planned ← assigned.rows.foldlM (planRow P state.deviceId now assigned.remap)
    { names, aliases := existing.map (·.payload.aliasName), existing, hosts := [], groups := [] }
  let effective ← orFail (effectiveHosts P (candidateState state planned.groups) planned.existing)
    "source inheritance requires review"
  orFail (RecordsV3.validateHosts P effective)
    "selected hosts have unresolved routes or conflicts; review before leaving"
  let plan : LeavePlan :=
    { groups := planned.groups, sourceSpaces := spaces, hosts := planned.hosts, passwordsCopied := [] }
  validatePlan P plan
  return plan

/-! ## Activating it -/

def superseded : AppError := .Other "sync round superseded by a newer sync state"

def placeHost (hosts : BTreeMap LocalRecord) (planned : PlannedHost) : Leave (BTreeMap LocalRecord) := do
  let key := recordKey .Host planned.mapping.localHostId
  refuse (hosts.contains key) (.Other "planned local identity became occupied")
  return hosts.insert key planned.local

def placeGroup (groups : BTreeMap LocalRecord) (planned : PlannedGroup) : Leave (BTreeMap LocalRecord) := do
  let key := recordKey .Group planned.localGroupId
  refuse (groups.contains key) (.Other "planned group identity became occupied")
  return groups.insert key planned.local

/-- The place of a group in the order follows it to its new id. -/
def remappedOrder (groups : List PlannedGroup) (ids : List String) : List String :=
  ids.map fun id => ((groups.find? fun group => group.sourceGroupId == id).map (·.localGroupId)).getD id

/-- The state change of `resume_locked` that ends the account on this device. -/
def activate (plan : LeavePlan) (op : PendingAccountOperation) (latest : SyncStateV3) : Leave SyncStateV3 := do
  refuse (latest.pendingAccount.map (·.id) != some op.id ||
      latest.account.map (·.chainId) != some op.preparedAccount.chainId) superseded
  let hosts ← plan.hosts.foldlM placeHost latest.local.hosts
  let groups ← plan.groups.foldlM placeGroup latest.local.groups
  let n := { latest with «local» := { latest.local with hosts, groups } }
  let kept ← localHosts P n
  let effective ← orFail (effectiveHosts P n kept) "preserved inheritance needs review"
  orFail (RecordsV3.validateHosts P effective) "latest local routes conflict with preservation plan"
  let groupOrder := remappedOrder plan.groups (orderView latest).ids
  .ok
    { n with
      «local» := { n.local with groupOrder }
      version := if groupOrder.isEmpty then n.version else max n.version NAVIGATION_STATE_VERSION
      account := none, spaces := ∅, rotation := false, migrationGate := none, sharedWritesBlocked := false
      lastError := none, pendingAccount := some { op with phase := .Activated } }

end

end Sshelter.Sync.RecordLeave
