import Sshelter.Sync.RecordMerge

/-! # Changing the sync code

`record_rotation.rs`: the account and its spaces are read once more in full, and every row is
copied under new keys to new chains.  `sourceFull` reads the source and refuses anything that
is not settled; `prepareTargets` makes the copy.  The relay's answer to a full pull and what
the system's random source gives are parameters.
-/

namespace Sshelter.Sync.RecordRotation

abbrev Rotation := Except AppError

def failure (text : String) : AppError := .Other text

/-- `CARGO_PKG_VERSION`. -/
def APP_VERSION : String := "1.3.0"

/-- `unwrap` of a value that the callers have put there. -/
def unwrap {α : Type} : Option α → Rotation α
  | some value => .ok value
  | none => .error (failure "called `Option::unwrap()` on a `None` value")

/-- `ok_or_else`. -/
def orMissing {α : Type} (found : Option α) (text : String) : Rotation α :=
  match found with
  | some value => .ok value
  | none => .error (failure text)

/-- A map filled by a loop: the entries are written one after another. -/
def fill {α β : Type} (items : List α) (entry : α → Rotation (String × β)) : Rotation (BTreeMap β) := do
  return (∅ : BTreeMap β).insertAll (← items.mapM entry)

/-! ## Rows -/

section
variable (P : Primitives)

/-- The seven fields of a header and no others. -/
def completeHeader (fields : List (String × Json)) : Bool :=
  (headerFields.all fun name => (fields.lookup name).isSome) &&
    fields.all fun field => headerFields.contains field.1

/-- The opened row is the one its envelope says. -/
def headerMatches (keys : ChainKeys) (envelope : Envelope) (fields : List (String × Json)) : Bool :=
  completeHeader fields &&
    decide ((fields.lookup "kind").bind Json.asStr = some envelope.kind) &&
    decide ((fields.lookup "deleted").bind Json.asBool = some envelope.deleted) &&
    (((fields.lookup "id").bind Json.asStr).any fun id =>
      id != "" && idHash P keys envelope.kind id == envelope.idHash) &&
    (((fields.lookup "version").bind Json.asU64).any fun version => decide (0 < version)) &&
    ((fields.lookup "updated_at_ms").bind Json.asU64).isSome &&
    ((fields.lookup "device_id").bind Json.asStr).any isSlotId

/-- `open`: kinds that this version does not know are opened as well. -/
def openRow (keys : ChainKeys) (envelope : Envelope) : Rotation (List (String × Json)) :=
  match cryptoOpen P keys envelope.kind envelope.idHash envelope.sealed with
  | none => .error (failure "rotation source ciphertext could not be authenticated")
  | some text =>
    match P.fromText text with
    | some (.obj fields) =>
      if headerMatches P keys envelope fields then .ok fields
      else .error (failure "rotation source record identity is inconsistent")
    | _ => .error (failure "rotation source record is malformed")

/-- `envelope`. -/
def sealRow (keys : ChainKeys) (kind id nonce : String) (fields : List (String × Json)) :
    Rotation Envelope := do
  let sealed := cryptoSeal P keys kind id nonce (P.toText (.obj fields))
  let deleted ← orMissing ((fields.lookup "deleted").bind Json.asBool) "invalid rotation tombstone"
  .ok
    { kind, idHash := sealed.idHash, nonce := sealed.nonce, ciphertext := sealed.ciphertext, seq := 0
      deleted }

def rowBytes (row : Envelope) : Nat :=
  row.ciphertext.utf8ByteSize + row.nonce.utf8ByteSize + row.kind.utf8ByteSize + row.idHash.utf8ByteSize

def limits (rows : List Envelope) : Rotation Unit :=
  refuse (decide (4096 < rows.length) || decide (1024 * 1024 < (rows.map rowBytes).sum))
    (failure "rotation exceeds the per-chain storage budget; no source freeze was attempted")

/-! ## Reading the source -/

/-- The pulled rows fit the budget and every one of them opens. -/
def checkRows (keys : ChainKeys) (rows : List Envelope) : Rotation Unit := do
  limits rows
  forEach rows fun row => do
    let _ ← openRow P keys row

/-- Some row waits to be sent. -/
def anyDirty (records : BTreeMap LocalRecord) (sealed : BTreeMap SealedRecord) : Bool :=
  (records.values.any fun row => row.dirty) || sealed.values.any fun row => row.dirty

/-- The spaces that the account lists as live. -/
def liveSpaces (account : AccountState) : List String :=
  (account.records.values.filter fun row => row.record.kind == .Space && !row.record.deleted).map
    (·.record.id)

variable (pull : (chainId token : String) → Rotation PullResponse)

def sourceSpace (account : AccountState) (keys : ChainKeys) (cached : BTreeMap SpaceStateV3) (id : String) :
    Rotation (String × SpaceStateV3) := do
  let old := (cached[id]?).getD .default
  refuse old.missing (failure "a source space is missing; rotation did not preserve it")
  let child ← spaceKeys P keys account id
  let child ← orMissing child "source space credentials unavailable"
  let pulled ← (pull id child.authToken).mapError fun _ =>
    failure "a source space could not be read; rotation did not preserve it"
  checkRows P child pulled.records
  let merged := mergeSpace P child old pulled 0 .Compatible
  refuse (merged.gate != .Compatible || !merged.conflicts.isEmpty ||
      anyDirty merged.section_.records merged.section_.sealed)
    (failure "finish or review source space changes before rotation")
  return (id, merged.section_)

def sourceFull (source : AccountState) (keys : ChainKeys) (cached : BTreeMap SpaceStateV3) :
    Rotation (AccountState × BTreeMap SpaceStateV3) := do
  let pulled ← pull keys.chainId keys.authToken
  checkRows P keys pulled.records
  let merged := mergeAccount P keys source pulled 0
  refuse (merged.gate != .Compatible) (failure "source account format prevents rotation")
  refuse (!merged.conflicts.isEmpty || anyDirty merged.section_.records merged.section_.sealed)
    (failure "finish or review source account changes before rotation")
  let account := merged.section_
  let spaces ← fill (liveSpaces account) (sourceSpace P pull account keys cached)
  refuse (cached.toList.any fun (id, space) => space.selected && !spaces.contains id)
    (failure "a selected source space is unavailable")
  return (account, spaces)

end

/-! ## The copy -/

/-- What the random source gives: the keys of a new space by the source's id, and the nonce of a copied
row by its source chain and cache key. -/
structure Draws where
  keys : (oldId : String) → ChainKeys
  nonce : (chain key : String) → String

/-- `ChainKeys::from_parts` of a drawn key under the id it was given. -/
def childOf (newId : String) (generated : ChainKeys) : Rotation ChainKeys := do
  refuse (!isChainId newId || !isChainId generated.authToken)
    (failure "space key record has a malformed chain id or token")
  orMissing (ChainKeys.fromParts newId generated.authToken generated.encKey)
    "space key record has a malformed key"

def childKeys (draws : Draws) (mapping : BTreeMap String) : Rotation (BTreeMap ChainKeys) :=
  fill mapping.toList fun (oldId, newId) => do return (oldId, ← childOf newId (draws.keys oldId))

/-- The format the copy declares: the source's. -/
def sourceSchema (source : AccountState) : Nat :=
  (((source.records[recordKey .Meta accountMetaId]?).bind fun row =>
    row.record.payload.get "schema_version").bind Json.asU64).getD 3

def marker (op : PendingAccountOperation) (plan : RotationPlan) (phase : MigrationPhase) : MigrationGate :=
  { id := op.id, sourceDigest := plan.sourceDigest, phase }

/-- `payload[key] = value`: only an object or `null` can be assigned to. -/
def assign (payload : Json) (key : String) (value : Json) : Rotation Json :=
  match payload with
  | .obj _ | .null => .ok (payload.set key value)
  | _ => .error (failure "cannot access key in JSON value")

/-- A listed space id that has a new id gets it. -/
def mapSpaceId (mapping : BTreeMap String) (value : Json) : Json :=
  match value.asStr.bind fun id => mapping[id]? with
  | some mapped => .str mapped
  | none => value

/-- The spaces a device lists. -/
def mapSpaces (mapping : BTreeMap String) (payload : Json) : Json :=
  match (payload.get "spaces").bind Json.asArray with
  | some ids => payload.set "spaces" (.arr (ids.map (mapSpaceId mapping)))
  | none => payload

def targetRecord (mapping : BTreeMap String) (schema : Nat) (pending : MigrationGate) (r : Record) :
    Rotation Record :=
  if r.kind = .Meta ∧ r.id = accountMetaId then
    .ok
      { r with
        payload := .obj [("created_by_app_version", .str APP_VERSION), ("migration", pending.toJson),
          ("schema_version", .num schema)] }
  else if r.kind = .Space ∧ r.deleted = false then do
    let id ← orMissing mapping[r.id]? "source space mapping missing"
    let payload ← assign r.payload "previous_id" (.str r.id)
    return { r with id, payload }
  else if r.kind = .Device ∧ r.deleted = false then .ok { r with payload := mapSpaces mapping r.payload }
  else .ok r

def targetRow (mapping : BTreeMap String) (schema : Nat) (pending : MigrationGate) (row : LocalRecord) :
    Rotation (String × LocalRecord) := do
  let record ← targetRecord mapping schema pending row.record
  return (recordKey record.kind record.id, { record, seq := 0, dirty := true })

/-- The contents of a space-key record. -/
def credentials (child : ChainKeys) : Json :=
  .obj [("auth_token", .str child.authToken), ("enc_key", .str child.encKey), ("schema", .num 1)]

/-- The space-key record of a new space. -/
def renewKey (child : ChainKeys) (fields : List (String × Json)) : List (String × Json) :=
  Json.setField "payload" (credentials child) (Json.setField "id" (.str child.chainId) fields)

/-- A live space key whose space has new keys. -/
def renewal (children : BTreeMap ChainKeys) (kind : String) (deleted : Bool) (oldId : String) :
    Option ChainKeys :=
  if kind = "spacekey" ∧ deleted = false then children[oldId]? else none

section
variable (P : Primitives)

/-- The row sealed again: nothing is known of its identity until it is pulled. -/
def resealed (keys : ChainKeys) (kind id nonce : String) (fields : List (String × Json)) :
    Rotation (String × SealedRecord) := do
  let envelope ← sealRow P keys kind id nonce fields
  return (sealedKey envelope.kind envelope.idHash, { envelope, dirty := true, publicIdentity := none })

def rowId (fields : List (String × Json)) : Rotation String := unwrap ((fields.lookup "id").bind Json.asStr)

/-- One retained row of the account. -/
def targetSealed (draws : Draws) (old new : ChainKeys) (children : BTreeMap ChainKeys)
    (entry : String × SealedRecord) : Rotation (String × SealedRecord) := do
  let (key, row) := entry
  let fields ← openRow P old row.envelope
  let oldId ← rowId fields
  let kind := row.envelope.kind
  let nonce := draws.nonce old.chainId key
  match renewal children kind row.envelope.deleted oldId with
  | some child => resealed P new kind child.chainId nonce (renewKey child fields)
  | none => resealed P new kind oldId nonce fields

/-- One retained row of a space. -/
def targetSpaceSealed (draws : Draws) (oldChild child : ChainKeys) (entry : String × SealedRecord) :
    Rotation (String × SealedRecord) := do
  let (key, row) := entry
  let fields ← openRow P oldChild row.envelope
  let id ← rowId fields
  resealed P child row.envelope.kind id (draws.nonce oldChild.chainId key) fields

def targetSpace (draws : Draws) (source : AccountState) (old : ChainKeys) (children : BTreeMap ChainKeys)
    (entry : String × SpaceStateV3) : Rotation (String × SpaceStateV3) := do
  let (oldId, space) := entry
  let oldChild ← spaceKeys P old source oldId
  let oldChild ← orMissing oldChild "source space unavailable"
  let child ← unwrap children[oldId]?
  let sealed ← fill space.sealed.toList (targetSpaceSealed P draws oldChild child)
  return (child.chainId,
    { space with
      cursorSeq := 0, baselineEstablished := false, missing := false
      records := space.records.map fun _ row => { row with seq := 0, dirty := true }
      sealed })

def prepareTargets (draws : Draws) (op : PendingAccountOperation) (old new : ChainKeys) :
    Rotation PendingAccountOperation := do
  let plan ← unwrap op.rotation
  let source := plan.sourceAccount
  let children ← childKeys draws plan.spaceIds
  let schema := sourceSchema source
  let records ← fill source.records.values (targetRow plan.spaceIds schema (marker op plan .Publishing))
  let sealed ← fill source.sealed.toList (targetSealed P draws old new children)
  let targetSpaces ← fill plan.sourceSpaces.toList (targetSpace P draws source old children)
  .ok
    { op with
      preparedAccount :=
        { AccountState.new new.chainId with
          remoteSchemaVersion := some (UInt32.ofNat schema), records, sealed }
      rotation := some { plan with targetSpaces } }

end

end Sshelter.Sync.RecordRotation
