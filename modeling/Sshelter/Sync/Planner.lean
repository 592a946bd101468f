import Sshelter.Sync.SpaceMerge

/-! # Planning uploads of a space of the second format

`sync/planner.rs` and the local half of `sync/merge.rs`: the blocks of the space's file are
compared with the cached records, and every difference becomes a new revision.  Versions that
wait for approval or were declined count as known, so a new revision starts from the largest
of what is known.  The numbers are incremented without a check; a release build wraps.
-/

namespace Sshelter.Sync.V2

/-- `n + 1` of a `u64` in a release build. -/
def wrappingSucc (n : Nat) : Nat := (n + 1) % 2 ^ 64

/-- Later than the previous revision, whatever the clock says. -/
def nextTimestamp (nowMs : Nat) (previous : Option Nat) : Nat :=
  match previous with
  | some p => if nowMs ≤ p then wrappingSucc p else nowMs
  | none => nowMs

/-- `HostPayload` as it is stored. -/
def hostPayload (text : String) : Json := .obj [("schema", .num 1), ("text", .str text)]

/-! ## Local changes -/

section
variable (deviceId : String) (changedAt : String → Nat)

/-- The new revision of a block, unless the cache has its text. -/
def changedBlock (cached : BTreeMap LocalRecord) (block : HostBlockText) : Option Record :=
  let previous := (cached[recordKey .Host block.aliasName]?).map (·.record)
  let unchanged :=
    (((previous.filter fun r => !r.deleted).bind fun r => payloadText r.payload).map
      fun text => text == block.text).getD false
  if unchanged then none
  else
    some
      { kind := .Host
        id := block.aliasName
        version := (previous.map fun r => wrappingSucc r.version).getD 1
        updatedAtMs := nextTimestamp (changedAt block.aliasName) (previous.map (·.updatedAtMs))
        deviceId
        deleted := false
        payload := hostPayload block.text }

/-- The tombstone of a cached host that has no block any more. -/
def removedHost (current : List HostBlockText) (row : LocalRecord) : Option Record :=
  let r := row.record
  if r.kind != .Host || r.deleted then none
  else if current.any fun block => block.aliasName == r.id then none
  else
    some
      { kind := .Host
        id := r.id
        version := wrappingSucc r.version
        updatedAtMs := nextTimestamp (changedAt r.id) (some r.updatedAtMs)
        deviceId
        deleted := true
        payload := .null }

def detectLocalChanges (cached : BTreeMap LocalRecord) (current : List HostBlockText) : List Record :=
  current.filterMap (changedBlock deviceId changedAt cached) ++
    cached.values.filterMap (removedHost deviceId changedAt current)

end

/-! ## Planning -/

/-- The newest of what waits and what was declined, each number on its own. -/
def knownRemote (space : SpaceState) (alias_ : String) : Option DeclinedVersion :=
  let pending := (space.pendingApprovals[alias_]?).map fun p =>
    { version := p.record.version, updatedAtMs := p.record.updatedAtMs, seq := p.seq : DeclinedVersion }
  let declined := space.declined[alias_]?
  match pending, declined with
  | some a, some b =>
    some
      { version := max a.version b.version, updatedAtMs := max a.updatedAtMs b.updatedAtMs
        seq := max a.seq b.seq }
  | some a, none => some a
  | none, b => b

/-- The row the planner sees: what is known raises the cached numbers, and without a cached row
a deleted placeholder stands for it. -/
def knownRow (alias_ : String) (known : DeclinedVersion) : Option LocalRecord → LocalRecord
  | some row =>
    { row with
      record :=
        { row.record with
          version := max row.record.version known.version
          updatedAtMs := max row.record.updatedAtMs known.updatedAtMs } }
  | none =>
    { record :=
        { kind := .Host, id := alias_, version := known.version, updatedAtMs := known.updatedAtMs
          deviceId := "", deleted := true, payload := .null }
      seq := known.seq
      dirty := false }

def overlayKnown (space : SpaceState) (view : BTreeMap LocalRecord) (alias_ : String) :
    BTreeMap LocalRecord :=
  match knownRemote space alias_ with
  | none => view
  | some known =>
    let key := recordKey .Host alias_
    view.insert key (knownRow alias_ known view[key]?)

/-- The cache with everything known laid over it. -/
def plannerView (space : SpaceState) : BTreeMap LocalRecord :=
  (space.pendingApprovals.toList.map (·.1) ++ space.declined.toList.map (·.1)).foldl (overlayKnown space)
    space.records

/-- One new revision goes to the cache, to be uploaded over the newest row that is known. -/
def planRecord (space : SpaceState) (record : Record) : SpaceState :=
  let key := recordKey record.kind record.id
  let knownSeq := ((knownRemote space record.id).map (·.seq)).getD 0
  let seq := max ((space.records[key]?.map (·.seq)).getD 0) knownSeq
  { space with
    pendingApprovals := space.pendingApprovals.erase record.id
    declined := space.declined.erase record.id
    republish := space.republish.erase key
    records := space.records.insert key { record, seq, dirty := true } }

/-- The revisions `plan_hosts` adds. -/
def plannedRecords (space : SpaceState) (blocks : List HostBlockText) (deviceId : String)
    (changedAt : String → Nat) : List Record :=
  detectLocalChanges deviceId changedAt (plannerView space) blocks

/-- The section after planning and the number of revisions added. -/
def planHosts (space : SpaceState) (blocks : List HostBlockText) (deviceId : String)
    (changedAt : String → Nat) : SpaceState × Nat :=
  let planned := plannedRecords space blocks deviceId changedAt
  (planned.foldl planRecord space, planned.length)

end Sshelter.Sync.V2
