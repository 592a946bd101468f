import Sshelter.Config.Edit

/-! # Reordering the Host blocks of a file

`reorder_hosts` of `config/edit.rs` as it is written: the places of the blocks are collected, the
blocks taken out, a new order of their numbers computed with a flag for each that is used, and the
blocks put back.  Taking a block twice would panic.
-/

namespace Sshelter.Config.Reorder

/-- The places of the Host blocks. -/
def hostIndices (items : List Item) : List Nat :=
  items.zipIdx.filterMap fun (item, i) => if item.isHost then some i else none

/-- Takes the blocks out and leaves a sentinel for each. -/
def takeHosts : List Nat → List Item → List Item × List Item
  | [], items => ([], items)
  | i :: rest, items =>
    let sentinel : Item := .Blank []
    let (hosts, items') := takeHosts rest (items.set i sentinel)
    (items.getD i sentinel :: hosts, items')

/-- The new order so far and the used blocks, after one more alias. -/
def placeAlias (hosts : List Item) (state : List Nat × List Bool) (alias_ : List Char) : List Nat × List Bool :=
  let (newOrder, used) := state
  let free (i : Nat) : Bool := !used.getD i false && (hosts[i]?).any (Item.hasAlias alias_)
  match (List.range hosts.length).find? free with
  | some i => (newOrder ++ [i], used.set i true)
  | none => (newOrder, used)

/-- The numbers of the blocks: the named ones first, then the remaining ones. -/
def newOrder (hosts : List Item) (aliasOrder : List (List Char)) : List Nat :=
  let (named, used) := aliasOrder.foldl (placeAlias hosts) ([], List.replicate hosts.length false)
  named ++ (List.range hosts.length).filter fun i => !used.getD i false

/-- Moves the blocks out in the order of the numbers; nothing when a block is gone already. -/
def takeInOrder : List (Option Item) → List Nat → Option (List Item)
  | _, [] => some []
  | slots, i :: rest => do
    let host ← slots[i]?.join
    let others ← takeInOrder (slots.set i none) rest
    some (host :: others)

/-- `reorder_hosts`; nothing when it panics. -/
def reorderHosts (items : List Item) (aliasOrder : List (List Char)) : Option (List Item) := do
  let indices := hostIndices items
  if indices.isEmpty then return items
  let (hosts, items) := takeHosts indices items
  let reordered ← takeInOrder (hosts.map some) (newOrder hosts aliasOrder)
  return (indices.zip reordered).foldl (fun items (i, host) => items.set i host) items

end Sshelter.Config.Reorder
