import Sshelter.Sync.Groups.Resolve

/-! # Reading the library

`snapshot` and what it is made of: the hosts of this device and of every selected
space, the keys, and the groups.  Relationship conflicts (duplicate aliases, broken
routes, missing groups) do not fail the read; they show as a host that needs review.
-/

namespace Sshelter.Sync

inductive HostReadiness where
  | Ready
  | NeedsKey (id : String)
  | KeyConflict (id : String)
  | NeedsReview
deriving DecidableEq, Repr

structure HostView where
  host : HostRecord
  effectivePayload : HostPayload
  inheritedFrom : BTreeMap String
  groupError : Option RepositoryError
  revision : RecordRevision
  readiness : HostReadiness
deriving DecidableEq

inductive KeyAuthority where
  | Local | Account
deriving DecidableEq, Repr

inductive KeyStatus where
  | Available | NeedsMaterial | Conflict | Deleted
deriving DecidableEq, Repr

structure KeyView where
  id : String
  authority : KeyAuthority
  «public» : Option KeySlotPayload
  vaultId : Option String
  status : KeyStatus
deriving DecidableEq, Repr

structure RepositorySnapshot where
  hosts : List HostView
  keys : List KeyView
  groups : List GroupView
deriving DecidableEq

structure HostEndpoint where
  hostname : String
  port : UInt16
deriving DecidableEq, Repr

/-! ## Hosts -/

section
variable (P : Primitives)

/-- One cached row as a host of the scope; groups and tombstones are skipped. -/
def readHost (scope : HostScope) (sealed : Option (BTreeMap SealedRecord))
    (entry : String × LocalRecord) : Repo (List HostView) := do
  let (key, row) := entry
  validateCache key row
  if row.record.kind = .Group then .ok []
  else do
    let decoded ← (decodeHost P row.record scope).toRepo
    match decoded with
    | .Tombstone _ => .ok []
    | .Live host =>
      let review := sealed.any fun rows => shadowed rows (some row) .Host row.record.id
      .ok
        [{ host, effectivePayload := host.payload, inheritedFrom := ∅, groupError := none
           revision := revision row.record, readiness := if review then .NeedsReview else .Ready }]

def readHosts (records : BTreeMap LocalRecord) (scope : HostScope)
    (sealed : Option (BTreeMap SealedRecord)) : Repo (List HostView) := do
  return (← records.toList.mapM (readHost P scope sealed)).flatten

/-- The hosts of one readable scope. -/
def readScope (state : SyncStateV3) : HostScope → Repo (List HostView)
  | .Local => readHosts P state.local.hosts .Local none
  | .Space spaceId =>
    readHosts P (state.spaceRecords spaceId) (.Space spaceId) (some (state.spaceSealed spaceId))

/-- The host with its inherited settings, or the defect that keeps it from resolving. -/
def resolveView (state : SyncStateV3) (view : HostView) : HostView :=
  match resolveEffective P state view.host with
  | .ok effective =>
    { view with effectivePayload := effective.payload, inheritedFrom := effective.inheritedFrom }
  | .error error => { view with groupError := some error, readiness := .NeedsReview }

end

def needsImportReview (host : HostRecord) : Bool :=
  host.payload.imported.any fun imported => imported.unsupported.any (·.requiresReview)

def duplicateId (hosts : List HostView) (id : String) : Bool :=
  decide (1 < hosts.countP fun view => view.host.id == id)

def aliasConflict (hosts : List HostView) (host : HostRecord) : Bool :=
  decide (1 < hosts.countP fun view =>
    view.host.scope == host.scope && view.host.payload.aliasName == host.payload.aliasName)

def hostIndex (hosts : List HostView) (id : String) : Validated Nat :=
  match hosts.zipIdx.filter fun (view, _) => view.host.id == id with
  | [] => .error (.HostNotFound id)
  | [(_, index)] => .ok index
  | _ => .error (.DuplicateId id)

/-! ## Routes

Only the first jump of a host brings its own route along, as OpenSSH does. -/

/-- A jump of `host`, with a missing host reported as such. -/
def jumpIndex (hosts : List HostView) (host : HostRecord) (id : String) : Validated Nat :=
  match hostIndex hosts id with
  | .error (.HostNotFound _) => .error (.MissingJump host.id id)
  | other => other

def addHop (hosts : List HostView) (root : String) (out : List Nat) (index : Nat) :
    Validated (List Nat) := do
  refuse (out.contains index)
    (.RepeatedJump root ((hosts[index]?).map (·.host.id) |>.getD ""))
  refuse (decide (MAX_JUMPS + 1 < (out ++ [index]).length)) (.JumpDepth root)
  return out ++ [index]

/-- A jump that does not bring its own route. -/
def addJump (hosts : List HostView) (host : HostRecord) (root : String) (stack : List Nat)
    (out : List Nat) (id : String) : Validated (List Nat) := do
  let jump ← jumpIndex hosts host id
  refuse (stack.contains jump) (.JumpCycle root)
  addHop hosts root out jump

/-- `append`: the stack never exceeds `MAX_JUMPS + 1` hosts, which bounds the recursion. -/
def appendRoute (hosts : List HostView) (root : String) :
    Nat → Nat → List Nat → List Nat → Validated (List Nat)
  | 0, _, _, _ => .error (.JumpDepth root)
  | fuel + 1, index, stack, out =>
    match hosts[index]? with
    | none => .error (.HostNotFound root)
    | some view => do
      refuse (stack.contains index) (.JumpCycle root)
      refuse (decide (MAX_JUMPS + 1 < (index :: stack).length)) (.JumpDepth root)
      let out ←
        match view.effectivePayload.jump with
        | [] => .ok out
        | first :: rest => do
          let jump ← jumpIndex hosts view.host first
          refuse ((index :: stack).contains jump) (.JumpCycle root)
          let out ← appendRoute hosts root fuel jump (index :: stack) out
          rest.foldlM (addJump hosts view.host root (index :: stack)) out
      addHop hosts root out index

def routeIndices (hosts : List HostView) (id : String) : Validated (List Nat) := do
  let index ← hostIndex hosts id
  appendRoute hosts id (MAX_JUMPS + 2) index [] []

/-! ## Keys -/

section
variable (P : Primitives)

def localKey (id : String) (material : LocalKeyMetadata) : Repo KeyView := do
  (validateKeyslot P id material.public).toRepo
  refuse (!isSlotId material.vaultId) (invalid "vault_id" id "expected a vault id")
  .ok
    { id, authority := .Local, «public» := some material.public, vaultId := some material.vaultId
      status := .Available }

/-- The account's view of a key slot: it is available only when the material kept on this
device is the account's own key. -/
def accountKey (keys : BTreeMap LocalKeyMetadata) (record : Record) : Repo KeyView := do
  let decoded ← (decodeKeyslot P record).toRepo
  match decoded with
  | .Tombstone _ =>
    .ok
      { id := record.id, authority := .Account, «public» := none, vaultId := none, status := .Deleted }
  | .Live slot =>
    let material := keys[record.id]?
    let status :=
      match material with
      | none => .NeedsMaterial
      | some material =>
        if (keyMaterialMatches P slot material.public.publicKey material.public.fingerprint).isOk then
          .Available
        else .Conflict
    .ok
      { id := record.id, authority := .Account, «public» := some slot
        vaultId := if status = KeyStatus.Available then material.map (·.vaultId) else none
        status }

def addAccountKey (keys : BTreeMap LocalKeyMetadata) (views : BTreeMap KeyView)
    (entry : String × LocalRecord) : Repo (BTreeMap KeyView) := do
  let (key, row) := entry
  validateCache key row
  refuse (row.record.kind == .Host) (.Validation (.WrongKind "account metadata" "host"))
  if row.record.kind != .KeySlot then .ok views
  else do
    let view ← accountKey P keys row.record
    return views.insert row.record.id view

end

/-- A retained envelope that wins over a key slot hides its vault reference. -/
def shadowKey (records : BTreeMap LocalRecord) (views : BTreeMap KeyView) (sealed : SealedRecord) :
    BTreeMap KeyView :=
  match sealed.publicIdentity with
  | none => views
  | some identity =>
    match views[identity.id]? with
    | none => views
    | some view =>
      if opaqueShadows sealed records[recordKey .KeySlot identity.id]? .KeySlot identity.id then
        views.insert identity.id { view with authority := .Account, status := .Conflict, vaultId := none }
      else views

section
variable (P : Primitives)

def listKeys (state : SyncStateV3) : Repo (List KeyView) := do
  validateHeader state
  let views ← state.local.keys.toList.foldlM
    (fun views (id, material) => do return views.insert id (← localKey P id material))
    (∅ : BTreeMap KeyView)
  match state.account with
  | none => return views.values
  | some account => do
    let views ← account.records.toList.foldlM (addAccountKey P state.local.keys) views
    return (account.sealed.values.foldl (shadowKey account.records) views).values

/-! ## The snapshot -/

def keyReadiness (keys : List KeyView) (id : String) : HostReadiness :=
  match keys.find? fun key => key.id == id with
  | none => .NeedsKey id
  | some key =>
    match key.status with
    | .Available => .Ready
    | .Conflict => .KeyConflict id
    | _ => .NeedsKey id

def readinessOf (hosts : List HostView) (keys : List KeyView) (view : HostView) : HostReadiness :=
  if view.readiness = .NeedsReview || needsImportReview view.host || aliasConflict hosts view.host ||
      !(routeIndices hosts view.host.id).isOk then .NeedsReview
  else if view.effectivePayload.auth = .Key then
    match view.effectivePayload.keyId with
    | some id => keyReadiness keys id
    | none => .NeedsReview
  else .Ready

def snapshot (state : SyncStateV3) : Repo RepositorySnapshot := do
  validateHeader state
  let keys ← listKeys P state
  let read ← (readableScopes state).mapM (readScope P state)
  let hosts := read.flatten.map (resolveView P state)
  let groups ← listGroups state
  .ok
    { hosts := hosts.map fun view => { view with readiness := readinessOf hosts keys view }
      keys, groups }

/-- A cached host must not be overwritten while an unsupported revision wins over it. -/
def ensureHostAuthority (state : SyncStateV3) (host : HostRecord) : Repo Unit :=
  match host.scope with
  | .Local => .ok ()
  | .Space spaceId =>
    refuse (shadowed (state.spaceSealed spaceId)
        (state.spaceRecords spaceId)[recordKey .Host host.id]? .Host host.id)
      (.OpaqueHostAuthority host.id)

/-- Upload review: some host of the scope does not resolve, is shadowed, shares its alias
or has no valid route. -/
def scopeRequiresRelationshipReview (state : SyncStateV3) (scope : HostScope) : Repo Bool := do
  let repository ← snapshot P state
  return repository.hosts.any fun view =>
    view.host.scope == scope &&
      (view.groupError.isSome || !(ensureHostAuthority state view.host).isOk ||
        aliasConflict repository.hosts view.host || !(routeIndices repository.hosts view.host.id).isOk)

def listHosts (state : SyncStateV3) : Repo (List HostView) := do
  return (← snapshot P state).hosts

def getHost (state : SyncStateV3) (id : String) : Repo HostView := do
  let hosts ← listHosts P state
  let index ← (hostIndex hosts id).toRepo
  match hosts[index]? with
  | some view => .ok view
  | none => .error (.Validation (.HostNotFound id))

end

end Sshelter.Sync
