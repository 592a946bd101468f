import Sshelter.Sync.RecordsV3.State

/-! # Navigation order

The decoder half of `group_order.rs`: one optional account `meta` record lists the
groups in display order.  Clients that do not know it keep it as ciphertext.
-/

namespace Sshelter.Sync

structure GroupOrder where
  schema : UInt32
  ids : List String
deriving DecidableEq, Repr

namespace GroupOrder

def MAX_GROUPS : Nat := 4096

def toJson (order : GroupOrder) : Json :=
  .obj [("ids", .arr (order.ids.map Json.str)), ("schema", Json.ofU32 order.schema)]

def ofJson (json : Json) : Option GroupOrder := do
  let fields ← json.record ["schema", "ids"] true
  let schema ← Json.field fields "schema" Json.asU32
  let ids ← Json.field fields "ids" (Json.listOf Json.asStr)
  return { schema, ids }

def validIds (ids : List String) : Bool :=
  decide (ids.length ≤ MAX_GROUPS) && ids.all isHostId && decide ids.Nodup

def decode (record : Record) : Option GroupOrder :=
  if record.kind != .Meta || record.id != groupOrderId || record.version == 0 ||
      !isSlotId record.deviceId then none
  else if record.deleted then
    if record.payload.isNull then some { schema := 1, ids := [] } else none
  else
    match ofJson record.payload with
    | none => none
    | some payload => if payload.schema == 1 && validIds payload.ids then some payload else none

end GroupOrder

end Sshelter.Sync
