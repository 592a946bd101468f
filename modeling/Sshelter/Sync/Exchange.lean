import Sshelter.Relay.ChainStore
import Sshelter.Sync.Repository.Basic

/-! # Devices sharing one space chain

The exchange of `record_round.rs` around one space: devices edit hosts, pull and merge,
collect outgoing rows, push them in batches and apply the receipts.  Whatever travels
between a device and the relay stays in the world once it was sent, so it can arrive
late, more than once or never.  A device is named by its device id.
-/

namespace Sshelter.Sync

open Relay (Chain PushResult)

/-- What `push_outgoing` keeps of the answer to one batch. -/
def collectAccepted (batch : List TypedOutgoing) (results : List PushResult) : Pushed :=
  { accepted := (batch.zip results).filterMap fun (row, result) =>
      match result with
      | .ok seq => some (row.outgoing.key, seq)
      | .conflict _ => none }

/-- The section after a local edit: the new revision waits in the row of its record. -/
def SpaceStateV3.edited (space : SpaceStateV3) (spaceId : String) (record : Record) : SpaceStateV3 :=
  let key := recordKey record.kind record.id
  let seq := ((space.records[key]?).map (·.seq)).getD 0
  { space with records := space.records.insert key (cachedRow record seq (.Space spaceId)) }

structure World where
  relay : Chain
  device : String → SpaceStateV3
  /-- Answers to pulls: the device, the cursor it asked with and the response. -/
  pulls : List (String × Nat × PullResponse)
  /-- Outgoing sets collected by a device. -/
  offers : List (String × List TypedOutgoing)
  /-- Answers to pushes: the device, the set it collected and what was accepted. -/
  receipts : List (String × List TypedOutgoing × Pushed)

namespace World

/-- A new chain that every device has selected. -/
def initial (tokenHash : String) : World :=
  { relay := .new tokenHash, device := fun _ => { SpaceStateV3.default with selected := true }
    pulls := [], offers := [], receipts := [] }

def setDevice (world : World) (device : String) (space : SpaceStateV3) : World :=
  { world with device := Function.update world.device device space }

@[simp] theorem setDevice_self (world : World) (device : String) (space : SpaceStateV3) :
    (world.setDevice device space).device device = space := by
  simp [setDevice]

theorem setDevice_ne (world : World) {device other : String} (space : SpaceStateV3)
    (ne : other ≠ device) : (world.setDevice device space).device other = world.device other := by
  simp [setDevice, ne]

end World

/-- One event.  The edit is the one `ordered_record` writes: it is stamped after the cached
row and passes the checks of a typed host. -/
inductive Exchange (P : Primitives) (keys : ChainKeys) (participants : Set String) : World → World → Prop
  | edit {world : World} {device id : String} {payload : Json} {deleted : Bool} {now : Nat}
      {previous : List Record} {record : Record} (member : device ∈ participants)
      (cached : ∀ row, (world.device device).records[recordKey .Host id]? = some row →
        row.record ∈ previous)
      (ordered : orderedRecord device id payload deleted now previous = .ok record)
      (valid : validPublic P keys record false = true) :
      Exchange P keys participants world
        (world.setDevice device ((world.device device).edited keys.chainId record))
  | pull {world : World} {device : String} (since : Nat) (member : device ∈ participants) :
      Exchange P keys participants world
        { world with pulls := (device, since, world.relay.pull since) :: world.pulls }
  | merge {world : World} {device : String} {since : Nat} {response : PullResponse}
      (sent : (device, since, response) ∈ world.pulls) :
      Exchange P keys participants world
        (world.setDevice device
          (mergeSpace P keys (world.device device) response since .Compatible).section_)
  | offer {world : World} {device : String} {nonces : String → String} {rows : List TypedOutgoing}
      (member : device ∈ participants)
      (collected : spaceOutgoing P keys (world.device device) .Compatible nonces = .ok rows) :
      Exchange P keys participants world { world with offers := (device, rows) :: world.offers }
  | push {world : World} {device : String} {rows batch : List TypedOutgoing} {relay : Chain}
      {results : List PushResult} (sent : (device, rows) ∈ world.offers) (part : batch.Sublist rows)
      (pushed : world.relay.push (batch.map (·.outgoing.item)) = .ok (relay, results)) :
      Exchange P keys participants world
        { world with
          relay
          receipts := (device, rows, collectAccepted batch results) :: world.receipts }
  | deliver {world : World} {device : String} {rows : List TypedOutgoing} {pushed : Pushed}
      (sent : (device, rows, pushed) ∈ world.receipts) :
      Exchange P keys participants world
        (world.setDevice device (applySpaceReceipts (world.device device) rows pushed))

/-- A world some run of events leads to. -/
def Reached (P : Primitives) (keys : ChainKeys) (participants : Set String) (tokenHash : String)
    (world : World) : Prop :=
  Relation.ReflTransGen (Exchange P keys participants) (.initial tokenHash) world

end Sshelter.Sync
