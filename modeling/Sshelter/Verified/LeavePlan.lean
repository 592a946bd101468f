import Sshelter.Sync.Leave
import Sshelter.Verified.HostSets
import Sshelter.Verified.IncludedLibrary

/-! # The plan of a leaving device

Every live row of a selected space gets a new id, and the references between the rows follow.
The ids are drawn at random: they are taken to be new, so the renaming is injective on
whatever the library mentions, and the copies are the source records under it.
-/

namespace Sshelter.Sync.RecordLeave

variable {P : Primitives} {state : SyncStateV3} {spaces : BTreeMap SpaceStateV3} {draws : List String}
  {remap : BTreeMap String}

/-! ## What rows say -/

/-- The hosts that a host jumps to, or that a group makes its hosts jump to. -/
def rowJumps (row : LocalRecord) : List String :=
  if row.record.kind = .Group then
    ((GroupPayload.ofJson row.record.payload).bind (·.defaults.jump)).getD []
  else ((HostPayload.ofJson row.record.payload).map (·.jump)).getD []

/-- The alias of a host or the name of a group. -/
def rowName (row : LocalRecord) : String :=
  if row.record.kind = .Group then ((GroupPayload.ofJson row.record.payload).map (·.name)).getD ""
  else ((HostPayload.ofJson row.record.payload).map (·.aliasName)).getD ""

/-- The parent of a group. -/
def rowParent (row : LocalRecord) : Option String :=
  if row.record.kind = .Group then (GroupPayload.ofJson row.record.payload).bind (·.parentId) else none

/-- The rows of this device. -/
def deviceRows (state : SyncStateV3) : List LocalRecord :=
  state.local.hosts.values ++ state.local.groups.values

/-- The random ids are enough and new: none repeats, none is in use, and no record mentions one or has it
at the end of its name. -/
structure FreshIds (state : SyncStateV3) (spaces : BTreeMap SpaceStateV3) (draws : List String) : Prop where
  enough : (liveRows spaces).length ≤ draws.length
  hex : ∀ id ∈ draws, isHostId id = true
  distinct : draws.Nodup
  unused : ∀ id ∈ draws, id ∉ localIds state ∧ ∀ space ∈ spaces.values, ∀ row ∈ space.records.values,
    row.record.id ≠ id
  unkeyed : ∀ id ∈ draws, state.local.groups[recordKey .Group id]? = none
  unmentioned : ∀ id ∈ draws, ∀ entry ∈ liveRows spaces, id ∉ rowJumps entry.2
  unnamed : ∀ id ∈ draws, ∀ row ∈ deviceRows state ++ (liveRows spaces).map Prod.snd,
    ¬ ("-" ++ id).toList <:+ (rowName row).toList

/-! ## New ids -/

/-- The live rows with the ids drawn for them. -/
def assignedRows (spaces : BTreeMap SpaceStateV3) (draws : List String) : List Assigned :=
  (liveRows spaces).zipWith (fun entry id => { spaceId := entry.1, source := entry.2, id }) draws

theorem freshId_head {used rest : List String} {id : String} (unused : id ∉ used) :
    freshId used (id :: rest) = .ok (id, rest) := by
  rw [freshId, if_neg (by simpa using unused)]

theorem assign_run {localIds : List String} (entries : List (String × LocalRecord)) (current : Assigning)
    (enough : entries.length ≤ current.draws.length) (distinct : current.draws.Nodup)
    (unused : ∀ id ∈ current.draws, id ∉ current.used)
    (sources : (entries.map (·.2.record.id)).Nodup) (apart : ∀ entry ∈ entries, entry.2.record.id ∉ localIds)
    (free : ∀ entry ∈ entries, current.remap[entry.2.record.id]? = none) :
    ∃ final, entries.foldlM (assignId localIds) current = .ok final ∧
      final.rows = current.rows ++ entries.zipWith
        (fun entry id => { spaceId := entry.1, source := entry.2, id }) current.draws ∧
      final.remap = current.remap.insertAll (entries.zipWith (fun entry id => (entry.2.record.id, id)) current.draws) := by
  -- the induction follows the rows; each takes the next id that was drawn
  induction entries generalizing current with
  | nil => exact ⟨current, rfl, by simp, rfl⟩
  | cons entry rest ih =>
    obtain ⟨spaceId, source⟩ := entry
    cases drawn : current.draws with
    | nil => simp [drawn] at enough
    | cons id later =>
      rw [drawn] at enough distinct unused
      rw [List.map_cons, List.nodup_cons] at sources
      have notLocal : localIds.contains source.record.id = false := by
        simpa using apart (spaceId, source) List.mem_cons_self
      have notMapped : current.remap.contains source.record.id = false := by
        rw [BTreeMap.contains_eq, free (spaceId, source) List.mem_cons_self]
        rfl
      have step : assignId localIds current (spaceId, source) = .ok
          { used := id :: current.used, draws := later, remap := current.remap.insert source.record.id id
            rows := current.rows ++ [{ spaceId, source, id }] } := by
        simp only [assignId, notLocal, notMapped, Bool.or_self, Result.refuse_false, Result.ok_bind, drawn,
          freshId_head (unused id List.mem_cons_self)]
      rw [List.nodup_cons] at distinct
      obtain ⟨final, ran, rows, mapped⟩ := ih
        { used := id :: current.used, draws := later, remap := current.remap.insert source.record.id id
          rows := current.rows ++ [{ spaceId, source, id }] }
        (by simpa using enough) distinct.2
        (by
          intro other member
          simp only [List.mem_cons, not_or]
          exact ⟨fun same => distinct.1 (same ▸ member), unused other (List.mem_cons_of_mem _ member)⟩)
        sources.2 (fun other member => apart other (List.mem_cons_of_mem _ member))
        (by
          intro other member
          have ne : source.record.id ≠ other.2.record.id :=
            fun same => sources.1 (List.mem_map.mpr ⟨other, member, same.symm⟩)
          simp only
          rw [BTreeMap.get?_insert_ne _ _ ne]
          exact free other (List.mem_cons_of_mem _ member))
      refine ⟨final, ?_, ?_, ?_⟩
      · rw [List.foldlM_cons, step, Result.ok_bind, ran]
      · rw [rows]
        simp
      · rw [mapped]
        rfl

/-- The map knows exactly the live rows' new ids. -/
def Renames (spaces : BTreeMap SpaceStateV3) (draws : List String) (remap : BTreeMap String) : Prop :=
  ∀ id new, remap[id]? = some new ↔ ∃ row ∈ assignedRows spaces draws, row.source.record.id = id ∧ row.id = new

theorem assigned_sources (enough : (liveRows spaces).length ≤ draws.length) :
    (assignedRows spaces draws).map (fun row => (row.spaceId, row.source)) = liveRows spaces := by
  unfold assignedRows
  generalize liveRows spaces = entries at enough ⊢
  induction entries generalizing draws with
  | nil => rfl
  | cons entry rest ih =>
    cases draws with
    | nil => simp at enough
    | cons id later => simp [ih (by simpa using enough)]

theorem assigned_ids : (assignedRows spaces draws).map (·.id) <+: draws := by
  unfold assignedRows
  generalize liveRows spaces = entries
  induction entries generalizing draws with
  | nil => simp
  | cons entry rest ih =>
    cases draws with
    | nil => simp
    | cons id later => simpa using ih

theorem assignIds_ok (fresh : FreshIds state spaces draws)
    (apart : ∀ entry ∈ liveRows spaces, entry.2.record.id ∉ localIds state)
    (distinct : ((liveRows spaces).map (·.2.record.id)).Nodup) :
    ∃ assigned, assignIds state spaces draws = .ok assigned ∧ assigned.rows = assignedRows spaces draws ∧
      Renames spaces draws assigned.remap := by
  obtain ⟨final, ran, rows, mapped⟩ := assign_run (liveRows spaces)
    { used := localIds state ++ spaces.values.flatMap fun space => space.records.values.map (·.record.id)
      draws, remap := ∅, rows := [] }
    fresh.enough fresh.distinct
    (by
      intro id member used
      obtain notLocal := fresh.unused id member
      simp only [List.mem_append, List.mem_flatMap, List.mem_map] at used
      obtain here | ⟨space, inSpaces, row, inRows, same⟩ := used
      · exact notLocal.1 here
      · exact notLocal.2 space inSpaces row inRows same)
    distinct apart (by simp)
  refine ⟨final, ran, by simpa [assignedRows] using rows, ?_⟩
  have keys : (((liveRows spaces).zipWith (fun entry id => (entry.2.record.id, id)) draws).map Prod.fst) =
      (liveRows spaces).map (·.2.record.id) := by
    have := congrArg (List.map fun entry => entry.2.record.id) (assigned_sources fresh.enough)
    rw [← this, assignedRows, List.map_zipWith, List.map_zipWith, List.map_zipWith]
  have members (id new : String) :
      (id, new) ∈ (liveRows spaces).zipWith (fun entry id => (entry.2.record.id, id)) draws ↔
        ∃ row ∈ assignedRows spaces draws, row.source.record.id = id ∧ row.id = new := by
    have same : (liveRows spaces).zipWith (fun entry id => (entry.2.record.id, id)) draws =
        (assignedRows spaces draws).map fun row => (row.source.record.id, row.id) := by
      rw [assignedRows, List.map_zipWith]
    rw [same, List.mem_map]
    simp only [Prod.mk.injEq]
  -- the map holds the pair of each row and nothing else
  intro id new
  rw [mapped, ← members]
  constructor
  · intro found
    by_cases known : id ∈ (((liveRows spaces).zipWith (fun entry id => (entry.2.record.id, id)) draws).map Prod.fst)
    · obtain ⟨⟨key, value⟩, member, rfl⟩ := List.mem_map.mp known
      rw [BTreeMap.get?_insertAll_of_mem (keys ▸ distinct) member] at found
      cases found
      exact member
    · rw [BTreeMap.get?_insertAll_of_not_mem known] at found
      simp at found
  · intro member
    exact BTreeMap.get?_insertAll_of_mem (keys ▸ distinct) member

/-! ## The renaming -/

section Renaming
variable (renames : Renames spaces draws remap)
include renames

theorem Renames.row {row : Assigned} (member : row ∈ assignedRows spaces draws) :
    remap[row.source.record.id]? = some row.id :=
  (renames _ _).mpr ⟨row, member, rfl, rfl⟩

theorem Renames.moved {row : Assigned} (member : row ∈ assignedRows spaces draws) :
    remapped remap row.source.record.id = row.id := by
  rw [remapped, renames.row member, Option.getD_some]

theorem Renames.fixed {id : String} (other : ∀ row ∈ assignedRows spaces draws, row.source.record.id ≠ id) :
    remapped remap id = id := by
  have absent : remap[id]? = none := by
    rw [Option.eq_none_iff_forall_ne_some]
    intro new found
    obtain ⟨row, member, same, _⟩ := (renames id new).mp found
    exact other row member same
  rw [remapped, absent, Option.getD_none]

theorem Renames.injective (distinct : draws.Nodup) {a b : String} (plainA : a ∉ draws) (plainB : b ∉ draws)
    (same : remapped remap a = remapped remap b) : a = b := by
  have drawn {row : Assigned} (member : row ∈ assignedRows spaces draws) : row.id ∈ draws :=
    assigned_ids.subset (List.mem_map_of_mem member)
  have ids : ((assignedRows spaces draws).map (·.id)).Nodup := distinct.sublist assigned_ids.sublist
  cases foundA : remap[a]? with
  | none =>
    cases foundB : remap[b]? with
    | none => simpa [remapped, foundA, foundB] using same
    | some new =>
      obtain ⟨row, member, _, rfl⟩ := (renames b new).mp foundB
      simp only [remapped, foundA, foundB, Option.getD_none, Option.getD_some] at same
      exact absurd (drawn member) (same ▸ plainA)
  | some new =>
    obtain ⟨row, member, rfl, rfl⟩ := (renames a new).mp foundA
    cases foundB : remap[b]? with
    | none =>
      simp only [remapped, foundA, foundB, Option.getD_none, Option.getD_some] at same
      exact absurd (drawn member) (same ▸ plainB)
    | some other =>
      obtain ⟨row', member', rfl, rfl⟩ := (renames b other).mp foundB
      simp only [remapped, foundA, foundB, Option.getD_some] at same
      rw [List.inj_on_of_nodup_map ids member member' same]

end Renaming

/-! ## Copies -/

/-- A host's settings under new ids. -/
def movedHost (rename : String → String) (aliasName : String) (p : HostPayload) : HostPayload :=
  { p with aliasName, groupId := p.groupId.map rename, jump := p.jump.map rename }

/-- A group's settings under new ids. -/
def movedGroup (rename : String → String) (name : String) (p : GroupPayload) : GroupPayload :=
  { p with
    name, parentId := p.parentId.map rename
    defaults := { p.defaults with jump := p.defaults.jump.map (List.map rename) } }

/-- The settings the source row is copied with: its own, under the new ids, with the alias or with the
alias that tells it apart. -/
def HostCopy (P : Primitives) (rename : String → String) (copy : Assigned × HostPayload) : Prop :=
  ∃ host, decodeHost P copy.1.source.record .Local = .ok (.Live host) ∧
    copy.2 = movedHost rename copy.2.aliasName host.payload ∧
    (copy.2.aliasName = host.payload.aliasName ∨
      copy.2.aliasName = remappedAlias host.payload.aliasName copy.1.id)

def GroupCopy (rename : String → String) (copy : Assigned × GroupPayload) : Prop :=
  ∃ found, decodeGroup copy.1.source.record .Local = .ok (.Live found) ∧
    copy.2 = movedGroup rename copy.2.name found.payload ∧
    (copy.2.name = found.payload.name ∨ copy.2.name = remappedGroupName found.payload.name copy.1.id)

def plannedHost (deviceId : String) (now : Nat) (copy : Assigned × HostPayload) : PlannedHost :=
  { mapping :=
      { sourceSpaceId := copy.1.spaceId, sourceHostId := copy.1.source.record.id, localHostId := copy.1.id
        aliasName := copy.2.aliasName }
    «local» := copiedRow deviceId now copy.1.source.record copy.1.id copy.2.toJson }

def plannedGroup (deviceId : String) (now : Nat) (copy : Assigned × GroupPayload) : PlannedGroup :=
  { sourceSpaceId := copy.1.spaceId, sourceGroupId := copy.1.source.record.id, localGroupId := copy.1.id
    «local» := copiedRow deviceId now copy.1.source.record copy.1.id copy.2.toJson }

def copiedHost (copy : Assigned × HostPayload) : HostRecord :=
  { id := copy.1.id, scope := .Local, payload := copy.2 }

/-- Place of a group among its siblings. -/
def siblingName (p : GroupPayload) : Option String × String := (p.parentId, p.name)

/-- The loop over the rows so far: what it has copied, and that nothing it copied clashes. -/
structure Copied (P : Primitives) (deviceId : String) (now : Nat) (rename : String → String)
    (locals : List HostRecord) (used : List (Option String × String)) (done : List Assigned)
    (current : Planning) (hosts : List (Assigned × HostPayload)) (groups : List (Assigned × GroupPayload)) :
    Prop where
  hostRows : hosts.map Prod.fst = done.filter fun row => row.source.record.kind != .Group
  groupRows : groups.map Prod.fst = done.filter fun row => row.source.record.kind == .Group
  hostCopies : ∀ copy ∈ hosts, HostCopy P rename copy
  groupCopies : ∀ copy ∈ groups, GroupCopy rename copy
  plannedHosts : current.hosts = hosts.map (plannedHost deviceId now)
  plannedGroups : current.groups = groups.map (plannedGroup deviceId now)
  existing : current.existing = locals ++ hosts.map copiedHost
  aliases : ∀ aliasName, aliasName ∈ current.aliases ↔ aliasName ∈ current.existing.map (·.payload.aliasName)
  distinctAliases : (current.existing.map (·.payload.aliasName)).Nodup
  names : ∀ name ∈ used, name ∈ current.names
  taken : ∀ copy ∈ groups, ∀ found, decodeGroup copy.1.source.record .Local = .ok (.Live found) →
    (copy.2.parentId, found.payload.name) ∈ current.names
  distinctNames : (groups.map fun copy => siblingName copy.2).Nodup
  apartNames : ∀ copy ∈ groups, siblingName copy.2 ∉ used

/-- No drawn id ends the name. -/
def Plain (draws : List String) (name : String) : Prop := ∀ id ∈ draws, ¬ ("-" ++ id).toList <:+ name.toList

theorem length_of_isHostId {id : String} (hex : isHostId id = true) : id.toList.length = 16 := by
  simp only [isHostId, isHexText, Bool.and_eq_true, beq_iff_eq] at hex
  rw [String.length_toList]
  exact hex.1

/-- Names that end in drawn ids are told apart by them. -/
theorem suffix_eq {name a b : String} (hexA : isHostId a = true) (hexB : isHostId b = true)
    (left : ("-" ++ a).toList <:+ name.toList) (right : ("-" ++ b).toList <:+ name.toList) : a = b := by
  have lengths : ("-" ++ a).toList.length = ("-" ++ b).toList.length := by
    simp [length_of_isHostId hexA, length_of_isHostId hexB]
  have same := (List.suffix_of_suffix_length_le left right (le_of_eq lengths)).eq_of_length lengths
  simpa [String.toList_inj] using same

theorem remappedAlias_suffix (aliasName id : String) : ("-" ++ id).toList <:+ (remappedAlias aliasName id).toList := by
  simp only [remappedAlias, String.toList_append, List.append_assoc]
  exact List.suffix_append _ _

theorem remappedGroupName_suffix (name id : String) :
    ("-" ++ id).toList <:+ (remappedGroupName name id).toList := by
  simp only [remappedGroupName, String.toList_append, List.append_assoc]
  exact List.suffix_append _ _

/-- A row the loop can copy. -/
structure Copyable (P : Primitives) (draws : List String) (remap : BTreeMap String) (row : Assigned) : Prop where
  drawn : row.id ∈ draws
  group : row.source.record.kind = .Group → ∃ found, decodeGroup row.source.record .Local = .ok (.Live found) ∧
    (∀ parent ∈ found.payload.parentId, (remap[parent]?).isSome = true) ∧ Plain draws found.payload.name
  host : row.source.record.kind ≠ .Group → ∃ found, decodeHost P row.source.record .Local = .ok (.Live found) ∧
    (∀ group ∈ found.payload.groupId, (remap[group]?).isSome = true) ∧ Plain draws found.payload.aliasName

theorem remapGroup_ok {text : String} {groupId : Option String}
    (known : ∀ group ∈ groupId, (remap[group]?).isSome = true) :
    remapGroup remap text groupId = .ok (groupId.map (remapped remap)) := by
  cases groupId with
  | none => rfl
  | some id =>
    obtain ⟨new, found⟩ := Option.isSome_iff_exists.mp (known id rfl)
    simp only [remapGroup, orMissing, found, Result.ok_bind, Option.map_some, remapped, Option.getD_some]
    rfl

section Loop
variable {deviceId : String} {now : Nat} {locals : List HostRecord} {used : List (Option String × String)}
  {done : List Assigned} {current : Planning} {hosts : List (Assigned × HostPayload)}
  {groups : List (Assigned × GroupPayload)} {row : Assigned}

/-- A copied name is plain or ends in its own row's id. -/
theorem GroupCopy.name_cases {rename : String → String} {copy : Assigned × GroupPayload} {found : GroupRecord}
    (copied : GroupCopy rename copy) (decodes : decodeGroup copy.1.source.record .Local = .ok (.Live found)) :
    copy.2.name = found.payload.name ∨ ("-" ++ copy.1.id).toList <:+ copy.2.name.toList := by
  obtain ⟨other, decodes', _, plain | renamed⟩ := copied
  · rw [decodes] at decodes'
    cases decodes'
    exact .inl plain
  · refine .inr ?_
    rw [renamed]
    exact remappedGroupName_suffix _ _

theorem planGroup_copies (copied : Copied P deviceId now (remapped remap) locals used done current hosts groups)
    (hex : ∀ id ∈ draws, isHostId id = true) (plain : ∀ name ∈ used, Plain draws name.2)
    (before : ∀ other ∈ done, Copyable P draws remap other) (copyable : Copyable P draws remap row)
    (new : ∀ other ∈ done, other.id ≠ row.id) (kind : row.source.record.kind = .Group) :
    ∃ next p, planGroup deviceId now remap current row = .ok next ∧
      Copied P deviceId now (remapped remap) locals used (done ++ [row]) next hosts (groups ++ [(row, p)]) := by
  obtain ⟨found, decodes, parents, plainName⟩ := copyable.group kind
  -- the copy under the name it would like to have
  let wanted := movedGroup (remapped remap) found.payload.name found.payload
  let p := if current.names.contains (siblingName wanted) then
    { wanted with name := remappedGroupName found.payload.name row.id } else wanted
  have decoded : orFail (decodeGroup row.source.record .Local) "invalid source group" = .ok (.Live found) := by
    rw [decodes]
    rfl
  have payload : remapGroupPayload remap (found.payload.parentId.map (remapped remap)) found.payload = wanted := rfl
  have parent : p.parentId = wanted.parentId := by
    simp only [p]
    split <;> rfl
  have shape : p = movedGroup (remapped remap) p.name found.payload := by
    simp only [p]
    split <;> rfl
  have naming : p.name = found.payload.name ∧ siblingName wanted ∉ current.names ∨
      p.name = remappedGroupName found.payload.name row.id := by
    by_cases clash : current.names.contains (siblingName wanted) = true
    · exact .inr (by simp only [p, if_pos clash])
    · exact .inl ⟨by simp only [p, if_neg clash]; rfl, by simpa using clash⟩
  have copy : GroupCopy (remapped remap) (row, p) := ⟨found, decodes, shape, naming.imp_left And.left⟩
  have ran : planGroup deviceId now remap current row = .ok
      { current with
        names := siblingName wanted :: current.names
        groups := current.groups ++ [plannedGroup deviceId now (row, p)] } := by
    simp only [planGroup, decoded, Result.ok_bind, orDeleted, remapGroup_ok parents, payload]
    rfl
  -- a copied group's name is not the new one's
  have apart : ∀ other ∈ groups, siblingName other.2 ≠ siblingName p := by
    intro other member same
    have inDone : other.1 ∈ done := List.mem_of_mem_filter (copied.groupRows ▸ List.mem_map_of_mem member)
    obtain ⟨source, decodes', _⟩ := copied.groupCopies other member
    have isGroup : other.1.source.record.kind = .Group := (decodeGroup_live decodes').1
    obtain ⟨found', decodes'', _, plainOther⟩ := (before _ inDone).group isGroup
    rw [decodes'] at decodes''
    cases decodes''
    obtain ⟨parents_eq, names_eq⟩ := Prod.mk.inj same
    obtain ⟨own, free⟩ | renamed := naming
    · obtain ownName | ends := (copied.groupCopies other member).name_cases decodes'
      · refine free ?_
        have known := copied.taken other member source decodes'
        rwa [parents_eq, ← ownName, names_eq, own, parent] at known
      · refine plainName _ (before _ inDone).drawn ?_
        rwa [names_eq, own] at ends
    · have ends : ("-" ++ row.id).toList <:+ other.2.name.toList := by
        rw [names_eq, renamed]
        exact remappedGroupName_suffix _ _
      obtain ownName | ends' := (copied.groupCopies other member).name_cases decodes'
      · rw [ownName] at ends
        exact plainOther _ copyable.drawn ends
      · have same := suffix_eq (hex _ (before _ inDone).drawn) (hex _ copyable.drawn) ends' ends
        exact new _ inDone same
  refine ⟨_, p, ran, ?_⟩
  exact
    { hostRows := by simp [copied.hostRows, kind]
      groupRows := by simp [copied.groupRows, kind]
      hostCopies := copied.hostCopies
      groupCopies := by
        intro other member
        obtain earlier | last := List.mem_append.mp member
        · exact copied.groupCopies other earlier
        · rwa [List.mem_singleton.mp last]
      plannedHosts := copied.plannedHosts
      plannedGroups := by simp [copied.plannedGroups]
      existing := copied.existing
      aliases := copied.aliases
      distinctAliases := copied.distinctAliases
      names := fun name member => List.mem_cons_of_mem _ (copied.names name member)
      taken := by
        intro other member source decodes'
        obtain earlier | last := List.mem_append.mp member
        · exact List.mem_cons_of_mem _ (copied.taken other earlier source decodes')
        · obtain rfl := List.mem_singleton.mp last
          rw [decodes] at decodes'
          cases decodes'
          simp only [parent]
          exact List.mem_cons_self
      distinctNames := by
        rw [List.map_append, List.nodup_append]
        refine ⟨copied.distinctNames, by simp, ?_⟩
        intro name member other inLast
        obtain ⟨earlier, inGroups, rfl⟩ := List.mem_map.mp member
        obtain rfl : other = siblingName p := by simpa using inLast
        exact apart earlier inGroups
      apartNames := by
        intro other member
        obtain earlier | last := List.mem_append.mp member
        · exact copied.apartNames other earlier
        · obtain rfl := List.mem_singleton.mp last
          intro known
          obtain ⟨own, free⟩ | renamed := naming
          · refine free (copied.names _ ?_)
            have same : siblingName p = siblingName wanted := Prod.ext parent own
            exact same ▸ known
          · refine plain _ known _ copyable.drawn ?_
            simp only [siblingName, renamed]
            exact remappedGroupName_suffix _ _ }

theorem planHost_copies (copied : Copied P deviceId now (remapped remap) locals used done current hosts groups)
    (hex : ∀ id ∈ draws, isHostId id = true) (plain : ∀ host ∈ locals, Plain draws host.payload.aliasName)
    (before : ∀ other ∈ done, Copyable P draws remap other) (copyable : Copyable P draws remap row)
    (new : ∀ other ∈ done, other.id ≠ row.id) (kind : row.source.record.kind ≠ .Group) :
    ∃ next p, planHost P deviceId now remap current row = .ok next ∧
      Copied P deviceId now (remapped remap) locals used (done ++ [row]) next (hosts ++ [(row, p)]) groups := by
  obtain ⟨found, decodes, parents, plainName⟩ := copyable.host kind
  have decoded : orFail (decodeHost P row.source.record .Local) "source host needs review before leaving" =
      .ok (.Live found) := by
    rw [decodes]
    rfl
  -- no host has the alias that tells the new one apart
  have free : remappedAlias found.payload.aliasName row.id ∉ current.aliases := by
    rw [copied.aliases, copied.existing, List.map_append, List.mem_append, List.mem_map, List.mem_map]
    have ends := remappedAlias_suffix found.payload.aliasName row.id
    rintro (⟨host, member, same⟩ | ⟨host, member, same⟩)
    · rw [← same] at ends
      exact plain host member _ copyable.drawn ends
    · obtain ⟨other, inHosts, rfl⟩ := List.mem_map.mp member
      have inDone : other.1 ∈ done := List.mem_of_mem_filter (copied.hostRows ▸ List.mem_map_of_mem inHosts)
      obtain ⟨source, decodes', _, naming⟩ := copied.hostCopies other inHosts
      rw [← same] at ends
      obtain own | renamed := naming
      · have isHost : other.1.source.record.kind ≠ .Group := by simp [(decodeHost_live decodes').1]
        obtain ⟨found', decodes'', _, plainOther⟩ := (before _ inDone).host isHost
        rw [decodes'] at decodes''
        cases decodes''
        refine plainOther _ copyable.drawn ?_
        rwa [← own]
      · have ends' : ("-" ++ other.1.id).toList <:+ (copiedHost other).payload.aliasName.toList := by
          simp only [copiedHost, renamed]
          exact remappedAlias_suffix _ _
        have sameId := suffix_eq (hex _ (before _ inDone).drawn) (hex _ copyable.drawn) ends' ends
        exact new _ inDone sameId
  obtain ⟨aliasName, chosen, unused, naming⟩ : ∃ aliasName,
      freeAlias current.aliases found.payload.aliasName row.id = .ok aliasName ∧ aliasName ∉ current.aliases ∧
        (aliasName = found.payload.aliasName ∨ aliasName = remappedAlias found.payload.aliasName row.id) := by
    by_cases clash : current.aliases.contains found.payload.aliasName = true
    · have open_ : current.aliases.contains (remappedAlias found.payload.aliasName row.id) = false := by
        simpa using free
      refine ⟨_, ?_, free, .inr rfl⟩
      rw [freeAlias, if_pos clash, open_]
      rfl
    · exact ⟨_, by rw [freeAlias, if_neg clash], by simpa using clash, .inl rfl⟩
  let p := movedHost (remapped remap) aliasName found.payload
  have copy : HostCopy P (remapped remap) (row, p) := ⟨found, decodes, rfl, naming⟩
  have ran : planHost P deviceId now remap current row = .ok
      { current with
        aliases := aliasName :: current.aliases, existing := current.existing ++ [copiedHost (row, p)]
        hosts := current.hosts ++ [plannedHost deviceId now (row, p)] } := by
    simp only [planHost, decoded, Result.ok_bind, orDeleted, remapGroup_ok parents, chosen]
    rfl
  refine ⟨_, p, ran, ?_⟩
  exact
    { hostRows := by simp [copied.hostRows, kind]
      groupRows := by simp [copied.groupRows, kind]
      hostCopies := by
        intro other member
        obtain earlier | last := List.mem_append.mp member
        · exact copied.hostCopies other earlier
        · rwa [List.mem_singleton.mp last]
      groupCopies := copied.groupCopies
      plannedHosts := by simp [copied.plannedHosts]
      plannedGroups := copied.plannedGroups
      existing := by simp [copied.existing]
      aliases := by
        intro name
        rw [List.mem_cons, copied.aliases, List.map_append, List.mem_append, or_comm]
        simp [copiedHost, p, movedHost]
      distinctAliases := by
        rw [List.map_append, List.nodup_append]
        refine ⟨copied.distinctAliases, by simp, ?_⟩
        intro name member other inLast same
        refine unused ((copied.aliases aliasName).mpr ?_)
        have last : other = aliasName := by simpa [copiedHost, p, movedHost] using inLast
        rwa [← last, ← same]
      names := copied.names
      taken := copied.taken
      distinctNames := copied.distinctNames
      apartNames := copied.apartNames }

/-- The loop copies every row. -/
theorem planRows_copies (rows : List Assigned)
    (copied : Copied P deviceId now (remapped remap) locals used done current hosts groups)
    (hex : ∀ id ∈ draws, isHostId id = true) (plainNames : ∀ name ∈ used, Plain draws name.2)
    (plainAliases : ∀ host ∈ locals, Plain draws host.payload.aliasName)
    (copyable : ∀ other ∈ done ++ rows, Copyable P draws remap other)
    (distinct : ((done ++ rows).map (·.id)).Nodup) :
    ∃ final hosts' groups', rows.foldlM (planRow P deviceId now remap) current = .ok final ∧
      Copied P deviceId now (remapped remap) locals used (done ++ rows) final hosts' groups' := by
  induction rows generalizing done current hosts groups with
  | nil => exact ⟨current, hosts, groups, rfl, by simpa using copied⟩
  | cons row rest ih =>
    have split : done ++ row :: rest = (done ++ [row]) ++ rest := by simp
    have before : ∀ other ∈ done, Copyable P draws remap other :=
      fun other member => copyable other (List.mem_append_left _ member)
    have here : Copyable P draws remap row := copyable row (by simp)
    have new : ∀ other ∈ done, other.id ≠ row.id := by
      intro other member same
      rw [List.map_append, List.nodup_append] at distinct
      exact distinct.2.2 _ (List.mem_map_of_mem member) row.id (by simp) same
    obtain ⟨next, hosts', groups', step, copied'⟩ : ∃ next hosts' groups',
        planRow P deviceId now remap current row = .ok next ∧
          Copied P deviceId now (remapped remap) locals used (done ++ [row]) next hosts' groups' := by
      by_cases kind : row.source.record.kind = .Group
      · obtain ⟨next, p, ran, copied'⟩ := planGroup_copies copied hex plainNames before here new kind
        exact ⟨next, _, _, by rw [planRow, if_pos kind, ran], copied'⟩
      · obtain ⟨next, p, ran, copied'⟩ := planHost_copies copied hex plainAliases before here new kind
        exact ⟨next, _, _, by rw [planRow, if_neg kind, ran], copied'⟩
    obtain ⟨final, hosts'', groups'', ran, copied''⟩ := ih copied' (split ▸ copyable) (split ▸ distinct)
    refine ⟨final, hosts'', groups'', ?_, split ▸ copied''⟩
    rw [List.foldlM_cons, step, Result.ok_bind, ran]

end Loop

end Sshelter.Sync.RecordLeave
