import Sshelter.Sync.GroupOrder

/-! # Typed account and space transport

`record_merge.rs`: opening and sealing records, the account gate, merging a pull
into a section, the outgoing set and receipts.  Unsupported rows stay encrypted.
A gate other than `Compatible` never rewrites the returned section.

The loop over the pulled rows is a fold that stops at the first row it must not
merge; stopping carries the diagnostics gathered so far, as the early `return
false` of the source does.
-/

namespace Sshelter.Sync

/-- The relay counts in JavaScript safe integers. -/
def MAX_RELAY_SEQ : Nat := 9007199254740991

inductive AccountGate where
  | Compatible
  | NeedsMigration (schema : UInt32)
  | NeedsUpdate (schema : UInt32)
  | MigrationPending (gate : MigrationGate)
  | InvalidMigration
  | InvalidPull
deriving DecidableEq, Repr

inductive DiagnosticCode where
  | Unreadable | Unsupported | InvalidShape | OpaqueConflict
deriving DecidableEq, Repr

structure MergeDiagnostic where
  kind : String
  idHash : String
  code : DiagnosticCode
deriving DecidableEq, Repr

structure TypedMergeOutcome (S : Type) where
  section_ : S
  gate : AccountGate
  observedSchema : Option UInt32
  skipped : Nat
  conflicts : List String
  diagnostics : List MergeDiagnostic
  baselineEstablished : Bool
deriving DecidableEq

inductive ExpectedRevision where
  | Public (record : Record)
  | Sealed (envelope : Envelope)
deriving DecidableEq, Repr

structure TypedOutgoing where
  outgoing : Outgoing
  expected : ExpectedRevision
deriving DecidableEq, Repr

/-- What the relay accepted: the cache key and the sequence number it was given. -/
structure Pushed where
  accepted : List (String × Nat)
deriving DecidableEq, Repr

inductive AppError where
  | NotFound (message : String)
  | Other (message : String)
deriving DecidableEq, Repr

def mergeFailure : AppError := .Other "typed sync record is invalid or unavailable"

/-! ## Opening and sealing -/

/-- The record as its serializer writes it. -/
def Record.toJson (record : Record) : Json :=
  .obj [("deleted", .bool record.deleted), ("device_id", .str record.deviceId),
    ("id", .str record.id), ("kind", .str record.kind.asStr), ("payload", record.payload),
    ("updated_at_ms", .num record.updatedAtMs), ("version", .num record.version)]

def headerFields : List String :=
  ["kind", "id", "version", "updated_at_ms", "device_id", "deleted", "payload"]

/-- The header fields of a decrypted object, each of the right type. -/
def readHeader (fields : List (String × Json)) : Option Record := do
  let kind ← ((fields.lookup "kind").bind Json.asStr).bind RecordKind.parse
  let id ← (fields.lookup "id").bind Json.asStr
  let version ← (fields.lookup "version").bind Json.asU64
  let updatedAtMs ← (fields.lookup "updated_at_ms").bind Json.asU64
  let deviceId ← (fields.lookup "device_id").bind Json.asStr
  let deleted ← (fields.lookup "deleted").bind Json.asBool
  let payload ← fields.lookup "payload"
  return { kind, id, version, updatedAtMs, deviceId, deleted, payload }

section
variable (P : Primitives) (keys : ChainKeys)

/-- The plaintext JSON of an envelope read as the given kind. -/
def openJson (kind : String) (envelope : Envelope) : Option Json :=
  (cryptoOpen P keys kind envelope.idHash envelope.sealed).bind P.fromText

def openRecord (envelope : Envelope) : Except DiagnosticCode Record :=
  match RecordKind.parse envelope.kind with
  | none => .error .Unsupported
  | some kind =>
    match openJson P keys envelope.kind envelope with
    | none => .error .Unreadable
    | some (.obj fields) =>
      if fields.any fun field => !headerFields.contains field.1 then .error .Unsupported
      else
        match readHeader fields with
        | none => .error .InvalidShape
        | some record =>
          if record.kind != kind || record.deleted != envelope.deleted ||
              idHash P keys kind.asStr record.id != envelope.idHash then .error .InvalidShape
          else .ok record
    | some _ => .error .InvalidShape

def encodeRecord (record : Record) (baseSeq : Nat) (nonce : String) : PushItem :=
  let sealed := cryptoSeal P keys record.kind.asStr record.id nonce (P.toText record.toJson)
  { idHash := sealed.idHash, kind := record.kind.asStr, nonce := sealed.nonce,
    ciphertext := sealed.ciphertext, deleted := record.deleted, baseSeq }

/-! ## Admission -/

def allowedNames (names : List String) (fields : List (String × Json)) : Bool :=
  fields.all fun field => names.contains field.1

/-- `slot_rules::valid_slot_name`. -/
def validSlotName (name : String) : Bool :=
  match name.toList with
  | [] => false
  | first :: rest =>
    decide (name.utf8ByteSize ≤ 64) && Text.isAsciiAlphanumeric first &&
      (rest.all fun c => Text.isAsciiAlphanumeric c || c == '.' || c == '_' || c == '-') &&
      !decide ((name.toList.map Char.toLower).reverse.take 4 = ".pub".toList.reverse)

/-- A migrated slot of the old format that belongs to one device. -/
def legacyOwnPayload (payload : Json) : Bool :=
  match payload.asObject with
  | none => false
  | some fields =>
    allowedNames ["schema", "name", "mode", "origin_device_id", "created_at_ms", "public_key",
        "fingerprint", "key_type", "has_passphrase"] fields &&
      decide ((payload.get "schema").bind Json.asU64 = some 1) &&
      decide ((payload.get "mode").bind Json.asStr = some "own") &&
      ((payload.get "name").bind Json.asStr).any validSlotName &&
      ((payload.get "origin_device_id").bind Json.asStr).any isSlotId &&
      ((payload.get "created_at_ms").bind Json.asU64).isSome &&
      ["public_key", "fingerprint", "key_type", "has_passphrase"].all fun key =>
        (payload.get key).all Json.isNull

def legacyAliasPayload (payload : Json) : Bool :=
  match payload.asObject with
  | none => false
  | some fields =>
    fields.length == 2 && decide ((payload.get "schema").bind Json.asU64 = some 1) &&
      ((payload.get "text").bind Json.asStr).isSome

/-- The kinds whose unsupported rows keep a verified header, per chain. -/
def hintedKind (account : Bool) (kind : String) : Bool :=
  if account then kind == "keyslot" || kind == "meta" else kind == "host" || kind == "group"

def verifiedPublicIdentity (envelope : Envelope) (account : Bool) : Option VerifiedPublicIdentity := do
  guard (hintedKind account envelope.kind)
  let value ← openJson P keys envelope.kind envelope
  let fields ← value.asObject
  let id ← (fields.lookup "id").bind Json.asStr
  let kind ← (fields.lookup "kind").bind Json.asStr
  guard (kind = envelope.kind ∧ idHash P keys envelope.kind id = envelope.idHash)
  let actor ← (fields.lookup "device_id").bind Json.asStr
  let version ← (fields.lookup "version").bind Json.asU64
  let deleted ← (fields.lookup "deleted").bind Json.asBool
  let knownId :=
    if account && envelope.kind == "meta" then id == groupOrderId
    else if account then isSlotId id
    else isHostId id
  guard (knownId && isSlotId actor && version != 0 && deleted == envelope.deleted)
  let updatedAtMs ← (fields.lookup "updated_at_ms").bind Json.asU64
  let legacy := fields.length == 7 && !deleted && (fields.lookup "payload").any fun payload =>
    (envelope.kind == "host" && legacyAliasPayload payload) ||
      (envelope.kind == "keyslot" && legacyOwnPayload payload)
  guard (!legacy)
  return { id, version, updatedAtMs, deviceId := actor, deleted }

/-- A future account's format version, authenticated without admitting its payload. -/
def authenticatedFutureSchema (envelope : Envelope) : Option UInt32 := do
  let value ← openJson P keys "meta" envelope
  let fields ← value.asObject
  guard ((fields.lookup "kind").bind Json.asStr = some "meta")
  guard ((fields.lookup "id").bind Json.asStr = some accountMetaId)
  guard ((fields.lookup "deleted").bind Json.asBool = some envelope.deleted)
  guard (idHash P keys "meta" accountMetaId = envelope.idHash)
  let payload ← fields.lookup "payload"
  let schema ← (payload.get "schema_version").bind Json.asU64
  guard (ACCOUNT_SCHEMA.toNat < schema)
  return UInt32.ofNat (min schema (2 ^ 32 - 1))

def metaSchema (record : Record) : Option UInt32 :=
  ((record.payload.get "schema_version").bind Json.asU64).map fun version =>
    UInt32.ofNat (min version (2 ^ 32 - 1))

def validMeta (record : Record) : Except AccountGate MetaPayloadV3 :=
  if record.deleted then .error .InvalidMigration
  else
    match MetaPayloadV3.ofJson record.payload with
    | none => .error .InvalidMigration
    | some payload =>
      if !(MIN_ACCOUNT_SCHEMA ≤ payload.schemaVersion && payload.schemaVersion ≤ ACCOUNT_SCHEMA) then
        .error (.NeedsMigration payload.schemaVersion)
      else if payload.migration.any fun marker => !(validateMigrationGate marker).isOk then
        .error .InvalidMigration
      else .ok payload

/-- The larger of two optional schema versions. -/
def maxSchema (a b : Option UInt32) : Option UInt32 :=
  match a, b with
  | some x, some y => some (max x y)
  | some x, none => some x
  | none, other => other

/-! ## The account gate -/

/-- The scan of a pull's account markers: newest schema seen, winning marker, and whether
some marker could not be read. -/
structure MarkerScan where
  schema : Option UInt32
  winner : Option LocalRecord
  unreadable : Bool

def scanMarker (scan : MarkerScan) (envelope : Envelope) : MarkerScan :=
  match openRecord P keys envelope with
  | .ok remote =>
    { scan with
      schema := maxSchema scan.schema (metaSchema remote)
      winner :=
        if merge scan.winner remote != .KeepLocal then
          some { record := remote, seq := envelope.seq, dirty := false }
        else scan.winner }
  | .error _ =>
    { scan with
      schema := maxSchema scan.schema (authenticatedFutureSchema P keys envelope)
      unreadable := true }

def gateOf (scan : MarkerScan) : AccountGate × Option UInt32 :=
  match scan.schema.filter fun schema => ACCOUNT_SCHEMA < schema with
  | some schema => (.NeedsUpdate schema, some schema)
  | none =>
    if scan.unreadable then (.InvalidMigration, scan.schema)
    else
      match scan.winner with
      | none => (.NeedsMigration (scan.schema.getD 0), scan.schema)
      | some winner =>
        match metaSchema winner.record with
        | none => (.InvalidMigration, scan.schema)
        | some winning =>
          if winning < MIN_ACCOUNT_SCHEMA then (.NeedsMigration winning, scan.schema)
          else
            match validMeta winner.record with
            | .error gate => (gate, scan.schema)
            | .ok payload =>
              match payload.migration with
              | some marker =>
                if marker.phase != .Active then (.MigrationPending marker, scan.schema)
                else (.Compatible, scan.schema)
              | none => (.Compatible, scan.schema)

def accountGate (account : AccountState) (pulled : PullResponse) : AccountGate × Option UInt32 :=
  if account.chainId != keys.chainId then (.InvalidPull, none)
  else
    let winner := account.records[recordKey .Meta accountMetaId]?
    let schema := maxSchema account.remoteSchemaVersion (winner.bind fun row => metaSchema row.record)
    let markers := pulled.records.filter fun row =>
      row.kind == "meta" && row.idHash == idHash P keys "meta" accountMetaId
    gateOf (markers.foldl (scanMarker P keys) { schema, winner, unreadable := false })

/-! ## Merging a pull -/

def validPull (cursor : Nat) (baseline : Bool) (knownSeq : Nat) (pulled : PullResponse)
    (since : Nat) : Bool :=
  decide (pulled.latestSeq ≤ MAX_RELAY_SEQ) && !(!baseline && since != 0) &&
    !(baseline && since != 0 && since != cursor) && decide (cursor ≤ pulled.latestSeq) &&
    decide (knownSeq ≤ pulled.latestSeq) && decide (since ≤ pulled.latestSeq) &&
    (pulled.records.all fun row => decide (since < row.seq) && decide (row.seq ≤ pulled.latestSeq)) &&
    decide (pulled.records.map (·.seq)).Nodup &&
    decide (pulled.records.map fun row => (row.kind, row.idHash)).Nodup

def maxSeq (records : BTreeMap LocalRecord) (sealed : BTreeMap SealedRecord) : Nat :=
  (records.values.map (·.seq) ++ sealed.values.map (·.envelope.seq)).foldl max 0

def validSecret (record : Record) : Bool :=
  let schemaOne := decide ((record.payload.get "schema").bind Json.asU64 = some 1)
  match record.kind with
  | .Key =>
    isSlotId record.id &&
      if record.deleted then record.payload.isNull || schemaOne
      else schemaOne && ((record.payload.get "private_key").bind Json.asStr).any fun text =>
        text != "" && decide (text.utf8ByteSize ≤ 16 * 1024)
  | .SpaceKey =>
    isChainId record.id &&
      if record.deleted then record.payload.isNull || schemaOne
      else schemaOne && ((record.payload.get "auth_token").bind Json.asStr).any isChainId &&
        ((record.payload.get "enc_key").bind Json.asStr).any isKeyBase64
  | _ => false

def validSpacePayload (record : Record) : Bool :=
  (SpacePayload.ofJson record.payload).any fun payload =>
    payload.schema == 1 && Text.trim payload.name != "" && payload.previousId.all isChainId

def validDevicePayload (record : Record) : Bool :=
  (DevicePayload.ofJson record.payload).any fun payload =>
    payload.schema == 1 && payload.spaces.all isChainId

def validPublic (record : Record) (account : Bool) : Bool :=
  let schemaTwo := decide ((record.payload.get "schema").bind Json.asU64 = some 2)
  let scope := HostScope.Space keys.chainId
  if account then
    match record.kind with
    | .Meta =>
      if record.id = accountMetaId then (validMeta record).isOk
      else if record.id = groupOrderId then (GroupOrder.decode record).isSome
      else false
    | .KeySlot =>
      (decodeKeyslot P record).isOk && (!record.deleted || record.payload.isNull || schemaTwo)
    | .Space =>
      isChainId record.id && (record.deleted && record.payload.isNull || validSpacePayload record)
    | .Device =>
      isSlotId record.id && (record.deleted && record.payload.isNull || validDevicePayload record)
    | _ => false
  else if record.kind = .Group then
    (decodeGroup record scope).isOk && (!record.deleted || record.payload.isNull)
  else
    (decodeHost P record scope).isOk && (!record.deleted || record.payload.isNull || schemaTwo)

/-- This version understands the opened record on this kind of chain. -/
def supported (record : Record) (account : Bool) : Bool :=
  if record.kind.isSecret then account && validSecret record else validPublic P keys record account

def headerView (record : Record) (seq : Nat) (dirty : Bool) : LocalRecord :=
  { record := { record with payload := .null }, seq, dirty }

def sameCiphertext (a b : Envelope) : Bool :=
  a.kind == b.kind && a.idHash == b.idHash && a.nonce == b.nonce && a.ciphertext == b.ciphertext &&
    a.deleted == b.deleted

/-- Both revisions can be opened and the retained one is kept. -/
def retainedKept (row : SealedRecord) (envelope : Envelope) : Bool :=
  match openRecord P keys row.envelope, openRecord P keys envelope with
  | .ok old, .ok remote =>
    merge (some (headerView old row.envelope.seq row.dirty)) remote == .KeepLocal
  | _, _ => false

def retainOpaque (sealed : BTreeMap SealedRecord) (envelope : Envelope) (account : Bool) :
    Option (BTreeMap SealedRecord) :=
  let key := sealedKey envelope.kind envelope.idHash
  let fresh : SealedRecord :=
    { envelope, dirty := false, publicIdentity := verifiedPublicIdentity P keys envelope account }
  match sealed[key]? with
  | none => some (sealed.insert key fresh)
  | some row =>
    if row.dirty && !sameCiphertext row.envelope envelope then none
    else if retainedKept P keys row envelope then
      let kept := { row.envelope with seq := max row.envelope.seq envelope.seq }
      some (sealed.insert key
        { row with
          envelope := kept, publicIdentity := verifiedPublicIdentity P keys kept account })
    else if envelope.seq < row.envelope.seq then
      some (sealed.insert key
        { row with publicIdentity := verifiedPublicIdentity P keys row.envelope account })
    else some (sealed.insert key fresh)

/-- The maps and lists `merge_rows` works on. -/
structure MergeRows where
  records : BTreeMap LocalRecord
  sealed : BTreeMap SealedRecord
  conflicts : List String
  diagnostics : List MergeDiagnostic
deriving DecidableEq

/-- Stopping carries the diagnostics gathered so far. -/
abbrev Merged := Except (List MergeDiagnostic)

def mergeOpaque (rows : MergeRows) (envelope : Envelope) (account : Bool) (code : DiagnosticCode) :
    Merged MergeRows :=
  let diagnostics := rows.diagnostics ++ [{ kind := envelope.kind, idHash := envelope.idHash, code }]
  match retainOpaque P keys rows.sealed envelope account with
  | none => .error diagnostics
  | some sealed => .ok { rows with sealed, diagnostics }

/-- The retained secret as a cached row, when the keys can open it: merging compares
headers only. -/
def secretView (row : SealedRecord) : Option LocalRecord :=
  match openRecord P keys row.envelope with
  | .ok record => some (headerView record row.envelope.seq row.dirty)
  | .error _ => none

def mergeSecret (rows : MergeRows) (envelope : Envelope) (remote : Record) : MergeRows :=
  let wireKey := sealedKey envelope.kind envelope.idHash
  let cached := rows.sealed[wireKey]?
  let outcome := merge (cached.bind (secretView P keys)) remote
  let sealed :=
    if outcome = .KeepLocal then
      match cached with
      | none => rows.sealed
      | some row =>
        rows.sealed.insert wireKey
          { row with envelope := { row.envelope with seq := max row.envelope.seq envelope.seq } }
    else rows.sealed.insert wireKey { envelope, dirty := false, publicIdentity := none }
  { rows with
    sealed
    conflicts :=
      if outcome = .RemoteWinsOverDirtyLocal then rows.conflicts ++ [wireKey] else rows.conflicts }

/-- A retained envelope of the same identity must not be discarded for this row. -/
def opaqueHolds (rows : MergeRows) (envelope : Envelope) (remote : Record) : Bool :=
  match rows.sealed[sealedKey envelope.kind envelope.idHash]? with
  | none => false
  | some opaqueRow =>
    match openRecord P keys opaqueRow.envelope with
    | .ok old =>
      merge (some (headerView old opaqueRow.envelope.seq opaqueRow.dirty)) remote == .KeepLocal
    | .error _ => decide (envelope.seq < opaqueRow.envelope.seq)

def mergePublic (rows : MergeRows) (envelope : Envelope) (remote : Record) : Merged MergeRows :=
  if opaqueHolds P keys rows envelope remote then .error rows.diagnostics
  else
    let key := recordKey remote.kind remote.id
    let wireKey := sealedKey envelope.kind envelope.idHash
    let cached := rows.records[key]?
    let outcome := merge cached remote
    let records :=
      if outcome = .KeepLocal then
        match cached with
        | none => rows.records
        | some row => rows.records.insert key { row with seq := max row.seq envelope.seq }
      else rows.records.insert key { record := remote, seq := envelope.seq, dirty := false }
    .ok
      { rows with
        records
        conflicts :=
          if outcome = .RemoteWinsOverDirtyLocal then rows.conflicts ++ [key] else rows.conflicts
        sealed :=
          if rows.sealed[wireKey]?.any (·.dirty) then rows.sealed else rows.sealed.erase wireKey }

def mergeRow (account : Bool) (rows : MergeRows) (envelope : Envelope) : Merged MergeRows :=
  match openRecord P keys envelope with
  | .error code => mergeOpaque P keys rows envelope account code
  | .ok remote =>
    if !supported P keys remote account then mergeOpaque P keys rows envelope account .Unsupported
    else if remote.kind.isSecret then .ok (mergeSecret P keys rows envelope remote)
    else mergePublic P keys rows envelope remote

def mergeRows (account : Bool) (rows : MergeRows) (pulled : List Envelope) : Merged MergeRows :=
  pulled.foldlM (mergeRow P keys account) rows

def readableGroupOrder (envelope : Envelope) : Bool :=
  match openRecord P keys envelope with
  | .ok record => (GroupOrder.decode record).isSome
  | .error _ => false

/-- Older clients kept the navigation record as ciphertext; admit it once it can be read. -/
def admitRetainedGroupOrder (rows : MergeRows) : Merged MergeRows :=
  let wireKey := sealedKey "meta" (idHash P keys "meta" groupOrderId)
  match rows.sealed[wireKey]? with
  | none => .ok rows
  | some retained =>
    if retained.dirty then .ok rows
    else if readableGroupOrder P keys retained.envelope then
      mergeRows P keys true { rows with sealed := rows.sealed.erase wireKey } [retained.envelope]
    else
      .ok
        { rows with
          sealed := rows.sealed.insert wireKey
            { retained with
              publicIdentity := verifiedPublicIdentity P keys retained.envelope true } }

def skippedCount (diagnostics : List MergeDiagnostic) : Nat := min diagnostics.length (2 ^ 32 - 1)

def opaqueConflict : MergeDiagnostic := { kind := "", idHash := "", code := .OpaqueConflict }

def mergeAccount (account : AccountState) (pulled : PullResponse) (since : Nat) :
    TypedMergeOutcome AccountState :=
  let (gate, schema) := accountGate P keys account pulled
  let unchanged (gate : AccountGate) : TypedMergeOutcome AccountState :=
    { section_ := account, gate, observedSchema := schema, skipped := 0, conflicts := [],
      diagnostics := [], baselineEstablished := account.baselineEstablished }
  if gate != .Compatible then unchanged gate
  else if !validPull account.cursorSeq account.baselineEstablished
      (maxSeq account.records account.sealed) pulled since then unchanged .InvalidPull
  else
    let start : MergeRows :=
      { records := account.records, sealed := account.sealed, conflicts := [], diagnostics := [] }
    match admitRetainedGroupOrder P keys start >>= fun rows => mergeRows P keys true rows pulled.records with
    | .error diagnostics =>
      { unchanged .InvalidPull with
        skipped := skippedCount diagnostics, diagnostics := diagnostics ++ [opaqueConflict] }
    | .ok rows =>
      { section_ :=
          { account with
            records := rows.records, sealed := rows.sealed, cursorSeq := pulled.latestSeq
            baselineEstablished := true, remoteSchemaVersion := schema }
        gate, observedSchema := schema, skipped := skippedCount rows.diagnostics
        conflicts := rows.conflicts, diagnostics := rows.diagnostics, baselineEstablished := true }

def mergeSpace (space : SpaceStateV3) (pulled : PullResponse) (since : Nat) (gate : AccountGate) :
    TypedMergeOutcome SpaceStateV3 :=
  let unchanged (gate : AccountGate) : TypedMergeOutcome SpaceStateV3 :=
    { section_ := space, gate, observedSchema := none, skipped := 0, conflicts := [],
      diagnostics := [], baselineEstablished := space.baselineEstablished }
  if gate != .Compatible then unchanged gate
  else if !validPull space.cursorSeq space.baselineEstablished
      (maxSeq space.records space.sealed) pulled since then unchanged .InvalidPull
  else
    let start : MergeRows :=
      { records := space.records, sealed := space.sealed, conflicts := [], diagnostics := [] }
    match mergeRows P keys false start pulled.records with
    | .error diagnostics =>
      { unchanged .InvalidPull with
        skipped := skippedCount diagnostics, diagnostics := diagnostics ++ [opaqueConflict] }
    | .ok rows =>
      { section_ :=
          { space with
            records := rows.records, sealed := rows.sealed, cursorSeq := pulled.latestSeq
            baselineEstablished := true }
        gate, observedSchema := none, skipped := skippedCount rows.diagnostics
        conflicts := rows.conflicts, diagnostics := rows.diagnostics, baselineEstablished := true }

/-! ## Keys of the spaces -/

/-- A recognized public row of the account is live and no retained envelope hides it. -/
def liveMetadata (account : AccountState) (kind : RecordKind) (id : String) : Except AppError Bool := do
  refuse (account.chainId != keys.chainId) mergeFailure
  match account.records[recordKey kind id]? with
  | none => .ok false
  | some row =>
    if row.record.deleted then .ok false
    else do
      refuse (!validPublic P keys row.record true ||
        account.sealed.contains (sealedKey kind.asStr (idHash P keys kind.asStr id))) mergeFailure
      return true

def openedSecret (account : AccountState) (kind : RecordKind) (id : String) :
    Except AppError (Option Record) := do
  refuse (account.chainId != keys.chainId) mergeFailure
  match account.sealed[sealedKey kind.asStr (idHash P keys kind.asStr id)]? with
  | none => .ok none
  | some sealed =>
    match openRecord P keys sealed.envelope with
    | .error _ => .error mergeFailure
    | .ok opened => do
      refuse (opened.kind != kind || opened.id != id || !validSecret opened) mergeFailure
      return if opened.deleted then none else some opened

/-- Transport credentials of a space need its live, recognized public record. -/
def spaceKeys (account : AccountState) (id : String) : Except AppError (Option ChainKeys) := do
  let live ← liveMetadata P keys account .Space id
  if !live then .ok none
  else do
    let opened ← openedSecret P keys account .SpaceKey id
    match opened with
    | none => .ok none
    | some opened =>
      let token := (opened.payload.get "auth_token").bind Json.asStr
      let encoded := (opened.payload.get "enc_key").bind Json.asStr
      match token.bind fun token => encoded.bind (ChainKeys.fromParts id token) with
      | none => .error mergeFailure
      | some child => .ok (some child)

/-- A host of the first format: an alias and a block of text. -/
def isLegacyAliasHost (envelope : Envelope) : Bool :=
  match openRecord P keys envelope with
  | .error _ => false
  | .ok opened => opened.kind == .Host && !opened.deleted && legacyAliasPayload opened.payload

/-! ## Outgoing rows and receipts -/

/-- The row offered for a dirty cached record. -/
def outgoingPublic (sealed : BTreeMap SealedRecord) (account : Bool) (nonces : String → String)
    (entry : String × LocalRecord) : Except AppError TypedOutgoing :=
  let (key, row) := entry
  let record := row.record
  if record.kind.isSecret || key != recordKey record.kind record.id ||
      !validPublic P keys record account ||
      sealed.contains (sealedKey record.kind.asStr (idHash P keys record.kind.asStr record.id)) then
    .error mergeFailure
  else
    .ok
      { outgoing :=
          { key, item := encodeRecord P keys record row.seq (nonces key), version := record.version
            updatedAtMs := record.updatedAtMs }
        expected := .Public record }

def outgoingSealed (account : Bool) (entry : String × SealedRecord) : Except AppError TypedOutgoing :=
  let (key, row) := entry
  let envelope := row.envelope
  match openRecord P keys envelope with
  | .error _ => .error mergeFailure
  | .ok opened =>
    if !account || !opened.kind.isSecret || !validSecret opened ||
        key != sealedKey envelope.kind envelope.idHash then .error mergeFailure
    else
      .ok
        { outgoing :=
            { key
              item :=
                { idHash := envelope.idHash, kind := envelope.kind, nonce := envelope.nonce
                  ciphertext := envelope.ciphertext, deleted := envelope.deleted
                  baseSeq := envelope.seq }
              version := opened.version, updatedAtMs := opened.updatedAtMs }
          expected := .Sealed envelope }

/-- `nonces` are the fresh nonces drawn for the rows sealed here, by cache key. -/
def outgoing (records : BTreeMap LocalRecord) (sealed : BTreeMap SealedRecord) (account : Bool)
    (nonces : String → String) : Except AppError (List TypedOutgoing) := do
  let publicRows ← (records.toList.filter fun entry => entry.2.dirty).mapM
    (outgoingPublic P keys sealed account nonces)
  let sealedRows ← (sealed.toList.filter fun entry => entry.2.dirty).mapM
    (outgoingSealed P keys account)
  return publicRows ++ sealedRows

def accountOutgoing (account : AccountState) (nonces : String → String) :
    Except AppError (List TypedOutgoing) :=
  let (gate, _) := accountGate P keys account { records := [], latestSeq := account.cursorSeq }
  if gate != .Compatible || !account.baselineEstablished || account.frozen.isSome then
    .error mergeFailure
  else outgoing P keys account.records account.sealed true nonces

def spaceOutgoing (space : SpaceStateV3) (gate : AccountGate) (nonces : String → String) :
    Except AppError (List TypedOutgoing) :=
  if gate != .Compatible || !space.baselineEstablished || !space.selected || space.missing then
    .error mergeFailure
  else outgoing P keys space.records space.sealed false nonces

end

/-- One accepted row: it clears the dirty flag of exactly the revision that was sent. -/
def applyReceipt (sent : List TypedOutgoing)
    (sections : BTreeMap LocalRecord × BTreeMap SealedRecord) (receipt : String × Nat) :
    BTreeMap LocalRecord × BTreeMap SealedRecord :=
  let (records, sealed) := sections
  let (key, seq) := receipt
  match sent.find? fun row => row.outgoing.key == key with
  | none => sections
  | some row =>
    if seq == 0 || decide (MAX_RELAY_SEQ < seq) || decide (seq < row.outgoing.item.baseSeq) then sections
    else
      match row.expected with
      | .Public expected =>
        match records[key]? with
        | none => sections
        | some cached =>
          if cached.dirty && decide (cached.record = expected) && decide (cached.seq ≤ seq) then
            (records.insert key { cached with seq, dirty := false }, sealed)
          else sections
      | .Sealed expected =>
        match sealed[key]? with
        | none => sections
        | some cached =>
          if cached.dirty && sameCiphertext cached.envelope expected &&
              decide (cached.envelope.seq ≤ seq) then
            (records, sealed.insert key
              { cached with envelope := { cached.envelope with seq }, dirty := false })
          else sections

def applyReceipts (records : BTreeMap LocalRecord) (sealed : BTreeMap SealedRecord)
    (sent : List TypedOutgoing) (pushed : Pushed) : BTreeMap LocalRecord × BTreeMap SealedRecord :=
  pushed.accepted.foldl (applyReceipt sent) (records, sealed)

def applyAccountReceipts (account : AccountState) (sent : List TypedOutgoing) (pushed : Pushed) :
    AccountState :=
  let (records, sealed) := applyReceipts account.records account.sealed sent pushed
  { account with records, sealed }

def applySpaceReceipts (space : SpaceStateV3) (sent : List TypedOutgoing) (pushed : Pushed) :
    SpaceStateV3 :=
  let (records, sealed) := applyReceipts space.records space.sealed sent pushed
  { space with records, sealed }

end Sshelter.Sync
