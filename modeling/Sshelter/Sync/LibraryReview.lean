import Sshelter.Sync.Library

/-! # Including the library after a review of names

`record_library/review.rs` and the edit of `enable_reviewed`: the names of local records that
the library already uses are changed by the user, bound to the state that was reviewed, and
then the local records are included and this device is marked as taking part.
-/

namespace Sshelter.Sync

structure LibraryFailure where
  code : String
  message : String
deriving DecidableEq, Repr

/-- `From<RepositoryError>`.  Aliases are plain ASCII, so quoting one is its debug format. -/
def LibraryFailure.ofRepository : RepositoryError → LibraryFailure
  | .UpgradeConfirmationRequired =>
    ⟨"upgrade_required", "Confirm that older clients have been updated or stopped before including Groups and inherited settings."⟩
  | .Validation (.AliasConflict aliasName _) =>
    ⟨"name_conflict", "Host alias \"" ++ aliasName ++
      "\" is already used. Review the proposed names and choose a unique alias."⟩
  | .Validation (.DuplicateId _) =>
    ⟨"identity_conflict", "A local record and synced record share an identity. They have been kept separately; review the conflicting records before including the library."⟩
  | .SpaceUnavailable reason =>
    ⟨"sync_data_unavailable",
      if reason = "Finish downloading the library before including existing records" then
        "Library setup is waiting for a complete download of every selected sync space. Finish syncing, then retry. Existing records have been kept."
      else if reason = "Some synced record identities cannot be read" then
        "A synced host or Group has an unreadable or unsupported identity. Update Lunport on the devices in this chain and retry. Existing records and encrypted source data have been kept."
      else
        "Some library data has not been downloaded or cannot be read. Finish syncing or update Lunport, then retry. Existing records have been kept."⟩
  | .Group _ | .GroupDefect _ =>
    ⟨"group_conflict", "Group names or relationships conflict. Choose unique names under each parent and review unavailable parent Groups, then retry. Existing records have been kept."⟩
  | _ =>
    ⟨"record_validation", "A host or Group needs review before it can be included. Check its fields, Group and jump-host references. Existing records have been kept."⟩

inductive NameKind where
  | Host | Group
deriving DecidableEq, Repr

def NameKind.recordKind : NameKind → RecordKind
  | .Host => .Host
  | .Group => .Group

def NameKind.field : NameKind → String
  | .Host => "alias"
  | .Group => "name"

structure Rename where
  kind : NameKind
  id : String
  name : String
deriving DecidableEq, Repr

structure LibraryReview where
  token : String
  renames : List Rename
deriving DecidableEq, Repr

/-! ## Conflicting names -/

/-- The names in use: aliases, and group names under their parents. -/
structure TakenNames where
  aliases : List String
  names : List (Option String × String)

def parentText (record : Record) : Option String := (record.payload.get "parent_id").bind Json.asStr

def nameText (kind : NameKind) (record : Record) : Option String :=
  (record.payload.get kind.field).bind Json.asStr

def takeName (taken : TakenNames) (kind : NameKind) (parent : Option String) (name : String) : TakenNames :=
  match kind with
  | .Host => { taken with aliases := name :: taken.aliases }
  | .Group => { taken with names := (parent, name) :: taken.names }

def isTaken (taken : TakenNames) (kind : NameKind) (parent : Option String) (name : String) : Bool :=
  match kind with
  | .Host => taken.aliases.contains name
  | .Group => taken.names.contains (parent, name)

/-- The live names of the library itself. -/
def libraryNames (rows : BTreeMap LocalRecord) : TakenNames :=
  (rows.values.filter fun row => !row.record.deleted).foldl
    (fun taken row =>
      match row.record.kind with
      | .Host =>
        match nameText .Host row.record with
        | some name => takeName taken .Host none name
        | none => taken
      | .Group =>
        match nameText .Group row.record with
        | some name => takeName taken .Group (parentText row.record) name
        | none => taken
      | _ => taken)
    { aliases := [], names := [] }

/-- One live local row: its name is a conflict when it is in use already. -/
def nameConflict (progress : TakenNames × List (NameKind × String)) (entry : NameKind × LocalRecord) :
    TakenNames × List (NameKind × String) :=
  let (taken, found) := progress
  let (kind, row) := entry
  match nameText kind row.record with
  | none => progress
  | some name =>
    let parent := parentText row.record
    if isTaken taken kind parent name then (taken, found ++ [(kind, row.record.id)])
    else (takeName taken kind parent name, found)

/-- `conflicts`, without the names it suggests: groups first, then hosts. -/
def nameConflicts (state : SyncStateV3) (destination : String) : List (NameKind × String) :=
  let live (rows : BTreeMap LocalRecord) := rows.values.filter fun row => !row.record.deleted
  (((live state.local.groups).map fun row => (NameKind.Group, row)) ++
      (live state.local.hosts).map fun row => (NameKind.Host, row)).foldl nameConflict
    (libraryNames (state.spaceRecords destination), []) |>.2

/-! ## Renaming -/

def localShelf (state : SyncStateV3) : NameKind → BTreeMap LocalRecord
  | .Host => state.local.hosts
  | .Group => state.local.groups

/-- One rename.  It changes the row where it is; the revision that counts is written when the
record is included. -/
def renameRow (progress : SyncStateV3 × List (NameKind × String)) (edit : Rename) :
    Except LibraryFailure (SyncStateV3 × List (NameKind × String)) := do
  let (next, seen) := progress
  refuse (seen.contains (edit.kind, edit.id) || Text.trim edit.name != edit.name || edit.name == "")
    ⟨"invalid_rename", "Choose one nonempty name for each conflicting record, without surrounding spaces."⟩
  let key := recordKey edit.kind.recordKind edit.id
  match ((localShelf next edit.kind)[key]?).filter fun row => !row.record.deleted with
  | none => .error ⟨"stale_review", "The library changed. Review the latest records before including them."⟩
  | some row =>
    let record := { row.record with payload := row.record.payload.set edit.kind.field (.str edit.name) }
    .ok (setLocalRow next edit.kind.recordKind key { row with record }, (edit.kind, edit.id) :: seen)

def renameRows (state : SyncStateV3) (renames : List Rename) : Except LibraryFailure SyncStateV3 := do
  return (← renames.foldlM renameRow (state, [])).1

section
-- `token` is the digest of everything the review showed
variable (P : Primitives) (pendingValid : PendingAccountOperation → Bool)
  (token : SyncStateV3 → String → String)

def includeReviewed (state : SyncStateV3) (id : String) (confirmed : Bool) (now : Nat)
    (review : Option LibraryReview) (keys : Option ChainKeys) : Except LibraryFailure SyncStateV3 :=
  match review with
  | none => (includeExisting P pendingValid state id confirmed now keys).mapError LibraryFailure.ofRepository
  | some review => do
    refuse (review.token != token state id)
      ⟨"stale_review", "The library changed while you were reviewing it. Review the latest records and retry; no names have been changed."⟩
    let expected := nameConflicts state id
    let supplied := review.renames.map fun edit => (edit.kind, edit.id)
    -- two sets, and no record named twice
    refuse (!(expected.all supplied.contains && supplied.all expected.contains && decide supplied.Nodup))
      ⟨"invalid_rename", "Review every conflicting name before including the library. Only those local records may be renamed."⟩
    let proposed ← renameRows state review.renames
    let next ← (includeExisting P pendingValid proposed id confirmed now keys).mapError LibraryFailure.ofRepository
    (validateTransition P state next).mapError LibraryFailure.ofRepository
    return next

/-- The edit of `enable_reviewed`: the records are included and the device is marked. -/
def enableReviewed (state : SyncStateV3) (confirmed : Bool) (now : Nat) (review : Option LibraryReview)
    (keys : Option ChainKeys) : Except LibraryFailure SyncStateV3 :=
  match librarySpace state with
  | none => .error ⟨"sync_data_unavailable", "The sync library is unavailable. Retry after syncing."⟩
  | some id => do
    let next ← includeReviewed P pendingValid token state id confirmed now review keys
    let key := recordKey .Device state.deviceId
    match state.account.bind fun account => account.records[key]? with
    | none =>
      .error ⟨"device_metadata", "This device's sync metadata is unavailable. Finish or resume sync setup, then retry."⟩
    | some previous =>
      if libraryEnabled state then .ok next
      else do
        let payload := previous.record.payload.set DEVICE_FLAG (.bool true)
        let record ← (orderedRecord state.deviceId state.deviceId payload false now [previous.record]).mapError
          LibraryFailure.ofRepository
        return next.setAccountRow key
          { record := { record with kind := .Device }, seq := previous.seq, dirty := true }

end

end Sshelter.Sync
