import Sshelter.Config.Edit
import Sshelter.Sync.Planner

/-! # The file of a space of the second format

The blocks of `sync/hosts_file.rs` and the effects of `sync/files.rs`: what a pull decided is
applied to the items of the file block by block, and the file is written again if anything
changed.  A file that breaks the rules of a managed file is neither read nor written.
-/

namespace Sshelter.Sync.V2

open HostsFile Config

/-! ## Blocks -/

def firstAlias : Item → Option (List Char)
  | .Host _ patterns _ => patterns.head?
  | _ => none

/-- Where the named block of an alias stands.  A block with wildcards is never touched. -/
def syncableHostPosition (items : List Item) (alias_ : List Char) : Except String (Option Nat) := do
  refuse (!isSyncableAlias alias_)
    ("'" ++ String.ofList alias_ ++ "' is a wildcard pattern; wildcard blocks are never synced")
  match items.findIdx? fun item => firstAlias item = some alias_ with
  | none => return none
  | some p =>
    match items[p]? with
    | some (.Host _ patterns _) =>
      refuse (!isSyncableBlock patterns)
        ("local block '" ++ String.ofList alias_ ++ "' has wildcard patterns and stays local")
      return some p
    | _ => throw ("local block '" ++ String.ofList alias_ ++ "' has wildcard patterns and stays local")

def blockText (item : Item) : List Char := serializeItems [item] true

/-- The block of an item, if it is synced. -/
def blockOf : Item → Option HostBlockText
  | .Host header patterns body =>
    if isSyncableBlock patterns then
      patterns.head?.map fun alias_ =>
        { aliasName := String.ofList alias_, text := String.ofList (blockText (.Host header patterns body)) }
    else none
  | _ => none

def blocksOf (items : List Item) : List HostBlockText := items.filterMap blockOf

/-! ## Effects -/

section
variable (u : Text.UnicodeTables)

/-- Replaces the block of the alias or adds it at the end.  Also returns whether anything changed. -/
def applyHostText (items : List Item) (alias_ text : List Char) : Except String (List Item × Bool) := do
  let pos ← syncableHostPosition items alias_
  let incoming ← parseSingleHost u alias_ text
  match pos with
  | some p =>
    if items[p]?.map blockText = some (blockText incoming) then return (items, false)
    else return (items.set p incoming, true)
  | none => return (items ++ [incoming], true)

def removeHostBlock (items : List Item) (alias_ : List Char) : List Item × Bool :=
  match syncableHostPosition items alias_ with
  | .ok (some p) => (items.eraseIdx p, true)
  | _ => (items, false)

def HostEffect.aliasName : HostEffect → String
  | .Upsert alias_ _ => alias_
  | .Delete alias_ => alias_

/-- One effect; one that cannot be applied does not stop the others. -/
def applyEffect (done : List Item × Bool × List String) (effect : HostEffect) : List Item × Bool × List String :=
  let (items, changed, failed) := done
  let result := match effect with
    | .Upsert alias_ text => applyHostText u items alias_.toList text.toList
    | .Delete alias_ => .ok (removeHostBlock items alias_.toList)
  match result with
  | .ok (items', c) => (items', changed || c, failed)
  | .error _ => (items, changed, failed ++ [effect.aliasName])

/-- The items, whether anything changed, and the aliases whose effect could not be applied. -/
def applyEffectsToItems (items : List Item) (effects : List HostEffect) : List Item × Bool × List String :=
  effects.foldl (applyEffect u) (items, false, [])

/-! ## The managed file -/

/-- Host blocks have named patterns, and no two have the same alias. -/
def checkBlocks : (seen : List (List Char)) → List Item → Except String Unit
  | _, [] => return ()
  | seen, .Host _ patterns _ :: rest => do
    refuse (!isSyncableBlock patterns)
      ("the synced hosts file contains 'Host " ++ String.ofList ([' '].intercalate patterns) ++
        "', which uses wildcard patterns; move that block to your main config")
    match patterns.head? with
    | some alias_ =>
      refuse (seen.contains alias_)
        ("the synced hosts file defines '" ++ String.ofList alias_ ++ "' more than once; remove the duplicate")
      checkBlocks (alias_ :: seen) rest
    | none => checkBlocks seen rest
  | seen, _ :: rest => checkBlocks seen rest

def checkManagedItems (items : List Item) : Except String Unit := do
  checkBlocks [] items
  match forbiddenDirective u items with
  | some f =>
    throw ("the synced hosts file contains " ++ f.describe ++
      ", which synced hosts cannot use; move that block to your main config")
  | none => return ()

/-- The file part of `apply_and_commit_space`: the text on disk afterwards.  Either every effect
is applied or nothing is written; an empty file gets its final newline with the first host. -/
def applyAndCommitSpace (text : List Char) (effects : List HostEffect) : Except String (List Char) := do
  let (items, trailingNewline) := parseFile u text
  let (items', changed, failed) := applyEffectsToItems u items effects
  refuse (!failed.isEmpty)
    (toString failed.length ++ " synced host record(s) could not be applied; nothing was changed")
  if changed then return serializeItems items' (trailingNewline || items.isEmpty) else return text

end

end Sshelter.Sync.V2
