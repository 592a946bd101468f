import Sshelter.Sync.RecordsV3.Validate

/-! # Strict validation of a set of hosts

`validate_hosts` and `chain_ids` of `records_v3/validate.rs`: before hosts are imported or
kept, their ids and aliases are distinct and every route resolves among them.
-/

namespace Sshelter.Sync.RecordsV3

/-! ## Routes by id -/

/-- `add`: one more host on the route of `root`. -/
def addHost (root : String) (out : List String) (host : HostRecord) : Validated (List String) := do
  refuse (out.contains host.id) (.RepeatedJump root host.id)
  refuse (decide (MAX_JUMPS + 1 < (out ++ [host.id]).length)) (.JumpDepth root)
  return out ++ [host.id]

/-- A jump of `current`, which must not be on the path that leads to it. -/
def findJump (hosts : BTreeMap HostRecord) (current : HostRecord) (root : String) (stack : List String)
    (id : String) : Validated HostRecord :=
  match hosts[id]? with
  | none => .error (.MissingJump current.id id)
  | some jump => do
    refuse (stack.contains id) (.JumpCycle root)
    return jump

/-- A jump after the first: its own route is not inherited. -/
def addLater (hosts : BTreeMap HostRecord) (current : HostRecord) (root : String) (stack out : List String)
    (id : String) : Validated (List String) := do
  let jump ← findJump hosts current root stack id
  addHost root out jump

/-- `append`: the stack never exceeds `MAX_JUMPS + 1` hosts, which bounds the recursion. -/
def appendChain (hosts : BTreeMap HostRecord) (root : String) :
    Nat → HostRecord → List String → List String → Validated (List String)
  | 0, _, _, _ => .error (.JumpDepth root)
  | fuel + 1, current, stack, out => do
    refuse (stack.contains current.id) (.JumpCycle root)
    refuse (decide (MAX_JUMPS + 1 < (current.id :: stack).length)) (.JumpDepth root)
    let out ←
      match current.payload.jump with
      | [] => .ok out
      | first :: rest => do
        let jump ← findJump hosts current root (current.id :: stack) first
        let out ← appendChain hosts root fuel jump (current.id :: stack) out
        rest.foldlM (addLater hosts current root (current.id :: stack)) out
    addHost root out current

def chainIds (hosts : BTreeMap HostRecord) (target : HostRecord) : Validated (List String) :=
  appendChain hosts target.id (MAX_JUMPS + 2) target [] []

/-! ## The whole set -/

/-- The ids and the aliases of the hosts checked so far. -/
structure HostIndex where
  ids : BTreeMap HostRecord
  aliases : List (HostScope × String)

section
variable (P : Primitives)

def indexHost (index : HostIndex) (host : HostRecord) : Validated HostIndex := do
  validateHost P host
  refuse (index.ids.contains host.id) (.DuplicateId host.id)
  refuse (index.aliases.contains (host.scope, host.payload.aliasName))
    (.AliasConflict host.payload.aliasName host.scope)
  .ok
    { ids := index.ids.insert host.id host
      aliases := (host.scope, host.payload.aliasName) :: index.aliases }

def validateHosts (hosts : List HostRecord) : Validated Unit := do
  let index ← hosts.foldlM (indexHost P) { ids := ∅, aliases := [] }
  forEach hosts fun host => do
    let _ ← chainIds index.ids host

end

end Sshelter.Sync.RecordsV3
