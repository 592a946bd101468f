import Sshelter.Sync.Approval
import Sshelter.Sync.RecordMerge

/-! # Merging a space of the second format

The space half of `sync/merge.rs`, with the decoder of `sync/reconcile.rs`.  Host records are
texts here.  A pulled text whose gated settings are not those of the block in use is held for
approval: it reaches neither the file nor the cache.
-/

namespace Sshelter.Sync.V2

open HostsFile Approval

/-! ## State -/

/-- A pulled record that waits for approval. -/
structure PendingApproval where
  record : Record
  seq : Nat
  text : String
  applied : ApprovalSignature
  incoming : ApprovalSignature
  fromDevice : String
deriving DecidableEq, Repr

/-- A remote version the user refused. -/
structure DeclinedVersion where
  version : Nat
  updatedAtMs : Nat
  seq : Nat
deriving DecidableEq, Repr

/-- The part of a space's section that syncing its hosts uses. -/
structure SpaceState where
  cursorSeq : Nat
  records : BTreeMap LocalRecord
  pendingApprovals : BTreeMap PendingApproval
  declined : BTreeMap DeclinedVersion
  republish : BTreeMap Unit
deriving DecidableEq

/-- What the file of the space has to change. -/
inductive HostEffect where
  | Upsert (alias_ text : String)
  | Delete (alias_ : String)
deriving DecidableEq, Repr

structure HostBlockText where
  aliasName : String
  text : String
deriving DecidableEq, Repr

structure SpaceMerged where
  «section» : SpaceState
  effects : List HostEffect
  conflicts : List String
  held : List String
  skipped : Nat
deriving DecidableEq

/-! ## Decoding -/

/-- A record as its derived decoder reads it: unknown fields are ignored. -/
def recordOfJson (json : Json) : Option Record := do
  let fields ← json.record ["kind", "id", "version", "updated_at_ms", "device_id", "deleted", "payload"] false
  let kind ← Json.field fields "kind" fun value => value.variant.bind RecordKind.parse
  let id ← Json.field fields "id" Json.asStr
  let version ← Json.field fields "version" Json.asU64
  let updatedAtMs ← Json.field fields "updated_at_ms" Json.asU64
  let deviceId ← Json.field fields "device_id" Json.asStr
  let deleted ← Json.field fields "deleted" Json.asBool
  let payload ← fields "payload"
  return { kind, id, version, updatedAtMs, deviceId, deleted, payload }

/-- The text of a host payload. -/
def payloadText (payload : Json) : Option String := do
  let fields ← payload.record ["schema", "text"] false
  let _ ← Json.field fields "schema" Json.asU32
  Json.field fields "text" Json.asStr

section
variable (P : Primitives) (u : Text.UnicodeTables) (keys : ChainKeys)

/-- `reconcile::decode`: the kind and the identity must be those of the envelope. -/
def decode (env : Envelope) : Option Record := do
  let kind ← RecordKind.parse env.kind
  let json ← openJson P keys env.kind env
  let record ← recordOfJson json
  if record.kind != kind || idHash P keys record.kind.asStr record.id != env.idHash then none
  else some record

/-- A space chain holds host records only. -/
def decodeHost (env : Envelope) : Option Record :=
  (decode P keys env).filter fun record =>
    env.kind == RecordKind.Host.asStr && isSyncableAlias record.id.toList

/-- The text of a live host record, if it may be used. -/
def hostText (record : Record) : Option String :=
  (payloadText record.payload).filter fun text =>
    (validateHostText u record.id.toList text.toList).isOk

/-! ## One pulled record -/

def DeclinedVersion.same (declined : DeclinedVersion) (record : Record) : Bool :=
  declined.version == record.version && declined.updatedAtMs == record.updatedAtMs

def PendingApproval.same (pending : PendingApproval) (record : Record) : Bool :=
  pending.record.version == record.version && pending.record.updatedAtMs == record.updatedAtMs

/-- The same version was declined, or waits already. -/
def SpaceState.seen (space : SpaceState) (record : Record) : Bool :=
  space.declined[record.id]?.any (·.same record) || space.pendingApprovals[record.id]?.any (·.same record)

/-- A version that was seen only gets the sequence number it has now. -/
def SpaceState.seeAgain (space : SpaceState) (record : Record) (seq : Nat) : SpaceState :=
  let key := recordKey .Host record.id
  { space with
    declined := space.declined.modify record.id fun declined =>
      if declined.same record then { declined with seq } else declined
    pendingApprovals := space.pendingApprovals.modify record.id fun pending =>
      if pending.same record then { pending with seq } else pending
    records := space.records.modify key fun row => { row with dirty := false }
    republish := space.republish.erase key }

/-- The record goes to the cache as the relay has it. -/
def SpaceState.take (space : SpaceState) (record : Record) (seq : Nat) : SpaceState :=
  let key := recordKey .Host record.id
  { space with
    declined := space.declined.erase record.id
    pendingApprovals := space.pendingApprovals.erase record.id
    records := space.records.insert key { record, seq, dirty := false }
    republish := space.republish.erase key }

/-- The record waits; the cache keeps what it has, no longer to be uploaded. -/
def SpaceState.hold (space : SpaceState) (pending : PendingApproval) : SpaceState :=
  let key := recordKey .Host pending.record.id
  { space with
    declined := space.declined.erase pending.record.id
    pendingApprovals := space.pendingApprovals.insert pending.record.id pending
    records := space.records.modify key fun row => { row with dirty := false }
    republish := space.republish.erase key }

/-- The block of the file with this alias. -/
def appliedText (applied : List HostBlockText) (alias_ : String) : Option String :=
  (applied.find? fun block => block.aliasName == alias_).map (·.text)

/-- A winning text that is new to this device: held when it needs approval, else applied. -/
def receiveText (applied : List HostBlockText) (deviceName : String → String) (out : SpaceMerged)
    (seq : Nat) (record : Record) (text : String) (conflicts : List String) : SpaceMerged :=
  let current := appliedText applied record.id
  if needsApproval u text.toList (current.map String.toList) then
    let pending :=
      { record, seq, text, applied := signature u (current.getD "").toList
        incoming := signature u text.toList, fromDevice := deviceName record.deviceId }
    { out with «section» := out.section.hold pending, conflicts, held := out.held ++ [record.id] }
  else
    { out with
      «section» := out.section.take record seq, conflicts
      effects := out.effects ++ [.Upsert record.id text] }

/-- One record that decodes. -/
def mergeRecord (applied : List HostBlockText) (deviceName : String → String) (out : SpaceMerged)
    (seq : Nat) (record : Record) : SpaceMerged :=
  let key := recordKey .Host record.id
  let outcome := merge out.section.records[key]? record
  if outcome = .KeepLocal then
    -- the next upload starts from the relay's row
    { out with
      «section» :=
        { out.section with records := out.section.records.modify key fun row => { row with seq } } }
  else
    let lostLocalEdit := outcome == .RemoteWinsOverDirtyLocal && !out.section.republish.contains key
    let conflicts := if lostLocalEdit then out.conflicts ++ [record.id] else out.conflicts
    if record.deleted then
      { out with
        «section» := out.section.take record seq, conflicts
        effects := out.effects ++ [.Delete record.id] }
    else
      match hostText u record with
      | none => { out with skipped := out.skipped + 1 }
      | some text =>
        if !lostLocalEdit && out.section.seen record then
          { out with «section» := out.section.seeAgain record seq }
        else receiveText u applied deviceName out seq record text conflicts

def mergeEnvelope (applied : List HostBlockText) (deviceName : String → String) (out : SpaceMerged)
    (env : Envelope) : SpaceMerged :=
  match decodeHost P keys env with
  | none => { out with skipped := out.skipped + 1 }
  | some record => mergeRecord u applied deviceName out env.seq record

/-! ## One pull -/

/-- The history of the relay went back: everything is uploaded again, and no sequence number
counts any more. -/
def SpaceState.rewind (space : SpaceState) : SpaceState :=
  { cursorSeq := 0
    records := space.records.map fun _ row => { row with seq := 0, dirty := true }
    pendingApprovals := space.pendingApprovals.map fun _ pending => { pending with seq := 0 }
    declined := space.declined.map fun _ declined => { declined with seq := 0 }
    republish := space.records.toList.foldl
      (fun keys (key, row) => if row.dirty then keys else keys.insert key ()) space.republish }

def mergeSpace (space : SpaceState) (pulled : PullResponse) (applied : List HostBlockText)
    (deviceName : String → String) : SpaceMerged :=
  let start := { «section» := space, effects := [], conflicts := [], held := [], skipped := 0 }
  let out := pulled.records.foldl (mergeEnvelope P u keys applied deviceName) start
  { out with
    «section» :=
      if pulled.latestSeq < space.cursorSeq then out.section.rewind
      else { out.section with cursorSeq := pulled.latestSeq } }

/-! ## What goes out -/

/-- The rows that the next upload offers. -/
def SpaceState.outgoingRows (space : SpaceState) : List (String × LocalRecord) :=
  space.records.toList.filter fun (_, row) => row.dirty

def spaceOutgoing (space : SpaceState) (nonces : String → String) : List Outgoing :=
  space.outgoingRows.map fun (key, row) =>
    { key, item := encodeRecord P keys row.record row.seq (nonces key)
      version := row.record.version, updatedAtMs := row.record.updatedAtMs }

end

end Sshelter.Sync.V2
