import Sshelter.Verified.LeaveCopies

/-! # The library a device leaves with

What the plan reads: the hosts and groups of this device and of every selected space, in a
library without defects.  The loop over the live rows then copies all of them.
-/

namespace Sshelter.Sync.RecordLeave

variable {P : Primitives} {state : SyncStateV3} {spaces : BTreeMap SpaceStateV3} {draws : List String}
  {remap : BTreeMap String} {library : RepositorySnapshot}

/-- The host has no relationship defect: its groups resolve, its alias is its own in its scope, and so is
its route. -/
structure NoDefect (hosts : List HostView) (view : HostView) : Prop where
  groups : view.groupError = none
  aliasName : aliasConflict hosts view.host = false
  route : (routeIndices hosts view.host.id).isOk = true

/-- What the plan asks of the spaces beyond hosts without defects.  It refuses to give up an id that two
records share, to keep a group under a parent it does not keep, and to touch the records of this device
that need a shared host. -/
structure Leavable (state : SyncStateV3) (spaces : BTreeMap SpaceStateV3) (hosts : List HostView) : Prop where
  hostsOnly : ∀ row ∈ state.local.hosts.values, row.record.deleted = false → row.record.kind ≠ .Group
  apart : ∀ entry ∈ liveRows spaces, entry.2.record.id ∉ localIds state
  distinct : ((liveRows spaces).map (·.2.record.id)).Nodup
  parents : ∀ entry ∈ liveRows spaces, ∀ parent ∈ rowParent entry.2, ∃ other ∈ liveRows spaces,
    other.2.record.kind = .Group ∧ other.2.record.id = parent
  jumps : ∀ entry ∈ liveRows spaces, ∀ jump ∈ rowJumps entry.2, ∀ other ∈ liveRows spaces,
    other.2.record.kind = .Group → other.2.record.id ≠ jump
  localJumps : ∀ view ∈ hosts, view.host.scope = .Local → ∀ jump ∈ view.effectivePayload.jump,
    ∃ other ∈ hosts, other.host.scope = .Local ∧ other.host.id = jump

/-- The state with the spaces as they were read for the plan. -/
def sourceState (state : SyncStateV3) (spaces : BTreeMap SpaceStateV3) : SyncStateV3 := { state with spaces }

/-- The library a device leaves with: it can be read, with the selected spaces as they were pulled for the plan,
and its hosts have no defects. -/
structure CleanLibrary (P : Primitives) (state : SyncStateV3) (spaces : BTreeMap SpaceStateV3) (draws : List String)
    (library : RepositorySnapshot) : Prop where
  opened : (snapshot P state).isOk = true
  read : snapshot P (sourceState state spaces) = .ok library
  selected : ∀ (id : String) space, spaces[id]? = some space → space.selected = true ∧ space.missing = false
  clean : ∀ view ∈ library.hosts, NoDefect library.hosts view
  fresh : FreshIds state spaces draws

/-- A device about to leave. -/
structure Leaving (P : Primitives) (state : SyncStateV3) (spaces : BTreeMap SpaceStateV3) (draws : List String)
    (library : RepositorySnapshot) : Prop extends CleanLibrary P state spaces draws library where
  leavable : Leavable state spaces library.hosts

theorem mem_liveRows {spaceId : String} {row : LocalRecord} :
    (spaceId, row) ∈ liveRows spaces ↔ row.record.deleted = false ∧
      ∃ space, spaces[spaceId]? = some space ∧ ∃ key : String, space.records[key]? = some row := by
  simp only [liveRows, List.mem_flatMap, List.mem_map, List.mem_filter, Prod.exists, Prod.mk.injEq,
    BTreeMap.mem_values, Bool.not_eq_true', BTreeMap.mem_toList]
  constructor
  · rintro ⟨id, space, found, row', ⟨held, live⟩, rfl, rfl⟩
    exact ⟨live, space, found, held⟩
  · rintro ⟨live, space, found, held⟩
    exact ⟨spaceId, space, found, row, ⟨held, live⟩, rfl, rfl⟩

theorem assigned_live (enough : (liveRows spaces).length ≤ draws.length) {row : Assigned}
    (member : row ∈ assignedRows spaces draws) : (row.spaceId, row.source) ∈ liveRows spaces := by
  rw [← assigned_sources enough]
  exact List.mem_map_of_mem (f := fun row : Assigned => (row.spaceId, row.source)) member

theorem exists_assigned (enough : (liveRows spaces).length ≤ draws.length) {entry : String × LocalRecord}
    (member : entry ∈ liveRows spaces) :
    ∃ row ∈ assignedRows spaces draws, row.spaceId = entry.1 ∧ row.source = entry.2 := by
  rw [← assigned_sources enough, List.mem_map] at member
  obtain ⟨row, inRows, rfl⟩ := member
  exact ⟨row, inRows, rfl, rfl⟩

/-- A host of this device is one of its rows. -/
theorem localIds_of_holds {host : HostRecord} {row : LocalRecord} (holds : Holds P (sourceState state spaces) host row)
    (placed : host.scope = .Local) : host.id ∈ localIds state := by
  have held := holds.held
  rw [placed] at held
  have decodes := holds.decodes
  obtain ⟨_, _, named, _⟩ := decodeHost_live decodes
  rw [named]
  refine List.mem_map_of_mem (f := fun row : LocalRecord => row.record.id) (List.mem_append_left _ ?_)
  exact BTreeMap.mem_values.mpr ⟨_, held⟩

/-- A host of a space is one of the live rows. -/
theorem live_of_holds {host : HostRecord} {row : LocalRecord} (holds : Holds P (sourceState state spaces) host row)
    {spaceId : String} (placed : host.scope = .Space spaceId) :
    (spaceId, row) ∈ liveRows spaces ∧ row.record.id = host.id ∧ row.record.kind = .Host := by
  obtain ⟨kind, live, named, _⟩ := decodeHost_live holds.decodes
  have scope := holds.scope
  rw [placed] at scope
  obtain ⟨space, found, _⟩ := mem_readableScopes_space.mp scope
  have held := holds.held
  simp only [placed, SyncStateV3.hostRecords, SyncStateV3.spaceRecords, found, Option.map_some,
    Option.getD_some] at held
  exact ⟨mem_liveRows.mpr ⟨live, space, found, _, held⟩, named.symm, kind⟩

/-- The live hosts of this device, each once. -/
theorem localHosts_spec
    (readable : ∀ (key : String) row, state.local.hosts[key]? = some row → HostRowReadable P .Local key row.record)
    (only : ∀ row ∈ state.local.hosts.values, row.record.deleted = false → row.record.kind ≠ .Group) :
    ∃ locals, localHosts P state = .ok locals ∧ (locals.map (·.id)).Nodup ∧
      ∀ host, host ∈ locals ↔ ∃ row, state.local.hosts[recordKey .Host host.id]? = some row ∧
        decodeHost P row.record .Local = .ok (.Live host) := by
  have decoded {row : LocalRecord} {host : HostRecord} :
      localHost P row = .ok host ↔ decodeHost P row.record .Local = .ok (.Live host) := by
    rw [localHost, orFail, Result.bind_eq_ok]
    constructor
    · rintro ⟨value, read, live⟩
      rw [Result.mapError_eq_ok.mp read]
      cases value with
      | Live found =>
        cases live
        rfl
      | Tombstone id => cases live
    · intro decodes
      exact ⟨.Live host, by rw [decodes]; rfl, rfl⟩
  -- every live row decodes, so reading the hosts cannot fail
  have runs : ((state.local.hosts.values.filter fun row => !row.record.deleted).mapM (localHost P)).isOk = true := by
    rw [Result.mapM_isOk]
    intro row member
    obtain ⟨inValues, live⟩ := List.mem_filter.mp member
    obtain ⟨key, held⟩ := BTreeMap.mem_values.mp inValues
    have alive : row.record.deleted = false := by simpa using live
    obtain ⟨value, decodes⟩ := Result.isOk_iff.mp ((readable key row held).decodes (only row inValues alive))
    cases value with
    | Live host => exact Result.isOk_iff.mpr ⟨host, decoded.mpr decodes⟩
    | Tombstone id =>
      rw [not_live_of_tombstone decodes] at alive
      cases alive
  obtain ⟨locals, ran⟩ := Result.isOk_iff.mp runs
  refine ⟨locals, ran, ?_, ?_⟩
  · -- the keys of the map are the keys of the hosts, so no host comes twice
    rw [Result.mapM_keys (·.record.id) (·.id) (fun row host read => (decodeHost_live (decoded.mp read)).2.2.1) ran,
      BTreeMap.values, List.filter_map, List.map_map]
    apply List.Nodup.of_map (recordKey .Host)
    rw [List.map_map]
    have keys : (state.local.hosts.toList.filter fun entry => !entry.2.record.deleted).map
        (fun entry => recordKey .Host entry.2.record.id) =
          (state.local.hosts.toList.filter fun entry => !entry.2.record.deleted).map Prod.fst := by
      apply List.map_congr_left
      rintro ⟨key, row⟩ member
      obtain ⟨inList, live⟩ := List.mem_filter.mp member
      have held := BTreeMap.mem_toList.mp inList
      have inValues : row ∈ state.local.hosts.values := BTreeMap.mem_values.mpr ⟨key, held⟩
      have cached := readable key row held
      obtain ⟨value, decodes⟩ := Result.isOk_iff.mp (cached.decodes (only row inValues (by simpa using live)))
      have kind : row.record.kind = .Host := by
        rw [decodeHost, Result.check_eq_ok] at decodes
        simpa using decodes.1
      simp only
      rw [cached.cached.key, kind]
    exact keys ▸ (BTreeMap.toList_keys_nodup state.local.hosts).sublist (List.filter_sublist.map Prod.fst)
  · intro host
    rw [Result.mem_mapM ran]
    constructor
    · rintro ⟨row, member, read⟩
      obtain ⟨key, held⟩ := BTreeMap.mem_values.mp (List.mem_filter.mp member).1
      have decodes := decoded.mp read
      obtain ⟨kind, _, named, _⟩ := decodeHost_live decodes
      refine ⟨row, ?_, decodes⟩
      rw [named, ← kind, ← (readable key row held).cached.key, held]
    · rintro ⟨row, held, decodes⟩
      obtain ⟨_, live, _⟩ := decodeHost_live decodes
      exact ⟨row, List.mem_filter.mpr ⟨BTreeMap.mem_values.mpr ⟨_, held⟩, by simp [live]⟩, decoded.mpr decodes⟩

theorem eq_of_countP_le_one {α : Type} {list : List α} {test : α → Bool} (once : list.countP test ≤ 1) {a b : α}
    (inA : a ∈ list) (inB : b ∈ list) (testA : test a = true) (testB : test b = true) : a = b := by
  rw [List.countP_eq_length_filter] at once
  have a' : a ∈ list.filter test := List.mem_filter.mpr ⟨inA, testA⟩
  have b' : b ∈ list.filter test := List.mem_filter.mpr ⟨inB, testB⟩
  match found : list.filter test, once with
  | [], _ =>
    rw [found] at a'
    cases a'
  | [only], _ =>
    rw [found, List.mem_singleton] at a' b'
    rw [a', b']
  | _ :: _ :: _, short => simp at short

namespace CleanLibrary

variable (leaving : CleanLibrary P state spaces draws library)
include leaving

theorem listed : listHosts P (sourceState state spaces) = .ok library.hosts := by
  rw [listHosts, leaving.read]
  rfl

theorem readable : Readable P (sourceState state spaces) := readable_of_listed leaving.listed

theorem space_readable {spaceId : String} {space : SpaceStateV3} (found : spaces[spaceId]? = some space) :
    .Space spaceId ∈ readableScopes (sourceState state spaces) :=
  mem_readableScopes_space.mpr ⟨space, found, leaving.selected spaceId space found⟩

/-- A live row is kept under its own key. -/
theorem live_row {spaceId : String} {row : LocalRecord} (live : (spaceId, row) ∈ liveRows spaces) :
    .Space spaceId ∈ readableScopes (sourceState state spaces) ∧ row.record.deleted = false ∧
      ((sourceState state spaces).spaceRecords spaceId)[recordKey row.record.kind row.record.id]? = some row := by
  obtain ⟨alive, space, found, key, held⟩ := mem_liveRows.mp live
  have scope := leaving.space_readable found
  have records : (sourceState state spaces).spaceRecords spaceId = space.records := by
    simp [SyncStateV3.spaceRecords, sourceState, found]
  refine ⟨scope, alive, ?_⟩
  rw [records]
  have readable := leaving.readable.hosts _ scope key row (by rw [← records] at held; exact held)
  rwa [← readable.cached.key]

/-- A live row, as the check of a plan looks it up. -/
theorem source_live {planned : LeavePlan} (sources : planned.sourceSpaces = spaces) {spaceId : String}
    {row : LocalRecord} (live : (spaceId, row) ∈ liveRows spaces) :
    planned.source spaceId row.record.kind row.record.id = some row := by
  obtain ⟨_, _, held⟩ := leaving.live_row live
  simp only [SyncStateV3.spaceRecords, sourceState] at held
  rw [LeavePlan.source, sources]
  cases found : spaces[spaceId]? with
  | none => simp [found] at held
  | some space => simpa [found] using held

theorem live_group {spaceId : String} {row : LocalRecord} (live : (spaceId, row) ∈ liveRows spaces)
    (kind : row.record.kind = .Group) : ∃ found, decodeGroup row.record (.Space spaceId) = .ok (.Live found) := by
  obtain ⟨scope, alive, held⟩ := leaving.live_row live
  rw [kind] at held
  exact leaving.readable.liveGroup scope held kind alive

theorem live_host {spaceId : String} {row : LocalRecord} (live : (spaceId, row) ∈ liveRows spaces)
    (kind : row.record.kind ≠ .Group) : ∃ host, host.scope = .Space spaceId ∧ host.id = row.record.id ∧
      row.record.kind = .Host ∧ Holds P (sourceState state spaces) host row := by
  obtain ⟨scope, alive, held⟩ := leaving.live_row live
  have readable := leaving.readable.hosts _ scope _ _ held
  obtain ⟨decoded, decodes⟩ := Result.isOk_iff.mp (readable.decodes kind)
  have isHost : row.record.kind = .Host := by
    cases decoded with
    | Live host => exact (decodeHost_live decodes).1
    | Tombstone id =>
      rw [not_live_of_tombstone decodes] at alive
      cases alive
  rw [isHost] at held
  obtain ⟨host, named, placed, holds⟩ := holds_of_live leaving.listed scope held alive
  exact ⟨host, placed, named, isHost, holds⟩

/-- The groups of every host resolve. -/
theorem resolved {view : HostView} (member : view ∈ library.hosts) :
    ∃ effective, resolveEffective P (sourceState state spaces) view.host = .ok effective ∧
      view.effectivePayload = effective.payload := by
  obtain ⟨row, shown⟩ := shown_of_mem leaving.listed member
  have clean := (leaving.clean view member).groups
  rw [shown.groupError] at clean
  obtain ⟨effective, resolves⟩ := resolves_of_groupError clean
  exact ⟨effective, resolves, by rw [shown.effective, effectiveOf_eq resolves]⟩

theorem distinct_ids : (library.hosts.map (·.host.id)).Nodup := by
  rw [List.nodup_iff_count_le_one]
  intro id
  by_cases known : id ∈ library.hosts.map (·.host.id)
  · obtain ⟨view, member, rfl⟩ := List.mem_map.mp known
    obtain ⟨route, walked⟩ := Result.isOk_iff.mp (leaving.clean view member).route
    obtain ⟨index, found, _⟩ := Result.bind_eq_ok.mp walked
    exact le_of_eq (hostIndex_isOk_iff.mp ⟨index, found⟩)
  · rw [List.count_eq_zero_of_not_mem known]
    exact Nat.zero_le 1

/-- A jump of a host is a host of the library. -/
theorem jump_known {view : HostView} (member : view ∈ library.hosts) {jump : String}
    (jumps : jump ∈ view.effectivePayload.jump) : ∃ other ∈ library.hosts, other.host.id = jump :=
  jumps_of_route member (leaving.clean view member).route jumps

/-! ## Ids that are not new -/

theorem live_not_drawn {entry : String × LocalRecord} (live : entry ∈ liveRows spaces) :
    entry.2.record.id ∉ draws := by
  intro drawn
  obtain ⟨_, space, found, key, held⟩ := mem_liveRows.mp live
  exact (leaving.fresh.unused _ drawn).2 space (BTreeMap.mem_values.mpr ⟨_, found⟩) entry.2
    (BTreeMap.mem_values.mpr ⟨key, held⟩) rfl

theorem local_not_drawn {id : String} (here : id ∈ localIds state) : id ∉ draws :=
  fun drawn => (leaving.fresh.unused id drawn).1 here

theorem host_not_drawn {view : HostView} (member : view ∈ library.hosts) : view.host.id ∉ draws := by
  obtain ⟨row, shown⟩ := shown_of_mem leaving.listed member
  cases placed : view.host.scope with
  | «Local» => exact leaving.local_not_drawn (localIds_of_holds shown.holds placed)
  | Space spaceId =>
    obtain ⟨live, named, _⟩ := live_of_holds shown.holds placed
    rw [← named]
    exact leaving.live_not_drawn live

/-! ## Every live row can be copied -/

/-- A group of a space is one of the live rows. -/
theorem group_live {spaceId id : String} {found : GroupRecord}
    (read : group (sourceState state spaces) (.Space spaceId) id = .ok found) :
    ∃ row, (spaceId, row) ∈ liveRows spaces ∧ row.record.kind = .Group ∧ row.record.id = id ∧
      decodeGroup row.record (.Space spaceId) = .ok (.Live found) := by
  obtain ⟨scope, row, held, decodes⟩ := group_eq_ok read
  obtain ⟨space, found', _⟩ := mem_readableScopes_space.mp scope
  obtain ⟨kind, live, _⟩ := decodeGroup_live decodes
  have cached := (leaving.readable.groups _ scope _ _ held).cached kind
  simp only [SyncStateV3.groupRows, SyncStateV3.spaceRecords, found', Option.map_some, Option.getD_some] at held
  exact ⟨row, mem_liveRows.mpr ⟨live, space, found', _, held⟩, kind, (recordKey_injective cached.key).2.symm,
    decodes⟩

/-- The group a shared host is in. -/
theorem group_of_host {view : HostView} (member : view ∈ library.hosts) {id : String}
    (grouped : view.host.payload.groupId = some id) :
    ∃ found, group (sourceState state spaces) view.host.scope id = .ok found := by
  obtain ⟨effective, resolves, _⟩ := leaving.resolved member
  obtain ⟨path, walked, _⟩ := resolveEffective_eq_ok.mp resolves
  rw [grouped] at walked
  exact group_of_path (Result.isOk_iff.mpr ⟨path, walked⟩)

theorem remap_live (renames : Renames spaces draws remap) {entry : String × LocalRecord}
    (live : entry ∈ liveRows spaces) : (remap[entry.2.record.id]?).isSome = true := by
  obtain ⟨row, member, _, source⟩ := exists_assigned leaving.fresh.enough live
  rw [← source, renames.row member, Option.isSome_some]

theorem plain_row {entry : String × LocalRecord} (live : entry ∈ liveRows spaces) :
    Plain draws (rowName entry.2) :=
  fun id drawn => leaving.fresh.unnamed id drawn entry.2 (List.mem_append_right _ (List.mem_map_of_mem live))

/-! ## The hosts and names of this device -/

theorem localNames_ok : ∃ used, localNames state = .ok used ∧ (∀ name ∈ used, Plain draws name.2) ∧
    ∀ name, name ∈ used ↔ ∃ id found, LiveGroup (sourceState state spaces) .Local id found ∧
      name = siblingName found.payload := by
  have reads := snapshot_isOk_iff.mp leaving.opened
  have listed : (listGroups state).isOk = true := by
    rw [listGroups, Result.isOk_map, Result.mapM_isOk]
    exact fun scope member => (readGroups_isOk member).mpr (reads.groups scope member)
  obtain ⟨groups, ran⟩ := Result.isOk_iff.mp listed
  have live_iff {id : String} {found : GroupRecord} :
      LiveGroup (sourceState state spaces) .Local id found ↔ LiveGroup state .Local id found :=
    ⟨fun live => ⟨List.mem_cons_self, live.2⟩, fun live => ⟨List.mem_cons_self, live.2⟩⟩
  have mem : ∀ name, name ∈ (groups.filter fun view => view.group.scope == .Local).map
      (fun view => (view.group.payload.parentId, view.group.payload.name)) ↔
        ∃ id found, LiveGroup (sourceState state spaces) .Local id found ∧ name = siblingName found.payload := by
    intro name
    rw [List.mem_map]
    constructor
    · rintro ⟨view, member, rfl⟩
      obtain ⟨inGroups, placed⟩ := List.mem_filter.mp member
      have placed : view.group.scope = .Local := by simpa using placed
      have live := listGroups_live ran inGroups
      rw [placed] at live
      exact ⟨_, _, live_iff.mpr live, rfl⟩
    · rintro ⟨id, found, live, rfl⟩
      obtain ⟨_, placed, view, inGroups, rfl⟩ := listGroups_complete ran (live_iff.mp live)
      exact ⟨view, List.mem_filter.mpr ⟨inGroups, by simp [placed]⟩, rfl⟩
  refine ⟨_, by rw [localNames, ran]; rfl, ?_, mem⟩
  intro name member
  obtain ⟨id, found, ⟨_, row, held, decodes⟩, rfl⟩ := (mem name).mp member
  obtain ⟨kind, _, _, _, read⟩ := decodeGroup_live decodes
  intro drawn isDrawn
  have plain := leaving.fresh.unnamed drawn isDrawn row
    (List.mem_append_left _ (List.mem_append_right _ (BTreeMap.mem_values.mpr ⟨_, held⟩)))
  simpa [rowName, kind, read, siblingName] using plain

/-- The aliases of this device's hosts are its own and none ends in a new id. -/
theorem local_aliases {locals : List HostRecord}
    (mem : ∀ host, host ∈ locals ↔ host.scope = .Local ∧ ∃ row, Holds P (sourceState state spaces) host row)
    (distinct : (locals.map (·.id)).Nodup) :
    (locals.map (·.payload.aliasName)).Nodup ∧ ∀ host ∈ locals, Plain draws host.payload.aliasName := by
  constructor
  · refine List.Nodup.map_on ?_ (distinct.of_map _)
    intro host inLocals other inLocals' same
    obtain ⟨placed, row, holds⟩ := (mem host).mp inLocals
    obtain ⟨placed', row', holds'⟩ := (mem other).mp inLocals'
    obtain ⟨view, inHosts, rfl, _⟩ := exists_view leaving.listed holds
    obtain ⟨view', inHosts', rfl, _⟩ := exists_view leaving.listed holds'
    have unshared := (leaving.clean view inHosts).aliasName
    simp only [aliasConflict, decide_eq_false_iff_not, not_lt] at unshared
    have equal := eq_of_countP_le_one unshared inHosts inHosts' (by simp) (by simp [placed, placed', same])
    rw [equal]
  · intro host inLocals
    obtain ⟨placed, row, holds⟩ := (mem host).mp inLocals
    obtain ⟨kind, _, _, _, read, _⟩ := decodeHost_live holds.decodes
    have held := holds.held
    rw [placed] at held
    intro id drawn
    have plain := leaving.fresh.unnamed id drawn row
      (List.mem_append_left _ (List.mem_append_left _ (BTreeMap.mem_values.mpr ⟨_, held⟩)))
    simpa [rowName, kind, read] using plain

end CleanLibrary

namespace Leaving

variable (leaving : Leaving P state spaces draws library)
include leaving

theorem copyable (renames : Renames spaces draws remap) {row : Assigned}
    (member : row ∈ assignedRows spaces draws) : Copyable P draws remap row := by
  have live := assigned_live leaving.fresh.enough member
  refine ⟨assigned_ids.subset (List.mem_map_of_mem member), ?_, ?_⟩
  · intro kind
    obtain ⟨found, decodes⟩ := leaving.live_group live kind
    obtain ⟨_, _, _, _, read⟩ := decodeGroup_live decodes
    refine ⟨_, decodeGroup_local decodes, ?_, ?_⟩
    · intro parent above
      have here : parent ∈ rowParent row.source := by
        rw [rowParent, if_pos kind, read]
        exact above
      obtain ⟨other, inRows, _, named⟩ := leaving.leavable.parents _ live parent here
      rw [← named]
      exact leaving.remap_live renames inRows
    · have plain := leaving.plain_row live
      simpa [rowName, kind, read] using plain
  · intro kind
    obtain ⟨host, placed, named, isHost, holds⟩ := leaving.live_host live kind
    obtain ⟨_, _, _, _, read, _⟩ := decodeHost_live holds.decodes
    refine ⟨_, decodeHost_local holds.decodes, ?_, ?_⟩
    · intro id grouped
      obtain ⟨view, inHosts, same, _⟩ := exists_view leaving.listed holds
      obtain ⟨found, read⟩ := leaving.group_of_host inHosts (same ▸ grouped)
      rw [same, placed] at read
      obtain ⟨other, inRows, _, named', _⟩ := leaving.group_live read
      rw [← named']
      exact leaving.remap_live renames inRows
    · have plain := leaving.plain_row live
      simpa [rowName, isHost, read] using plain

theorem localHosts_ok : ∃ locals, localHosts P state = .ok locals ∧ (locals.map (·.id)).Nodup ∧
    ∀ host, host ∈ locals ↔ host.scope = .Local ∧ ∃ row, Holds P (sourceState state spaces) host row := by
  have here : HostScope.Local ∈ readableScopes (sourceState state spaces) := List.mem_cons_self
  obtain ⟨locals, ran, distinct, mem⟩ :=
    localHosts_spec (leaving.readable.hosts .Local here) leaving.leavable.hostsOnly
  refine ⟨locals, ran, distinct, fun host => (mem host).trans ?_⟩
  constructor
  · rintro ⟨row, held, decodes⟩
    have placed : host.scope = .Local := (decodeHost_live decodes).2.2.2.1
    exact ⟨placed, row, placed ▸ here, by rw [placed]; exact held, by rw [placed]; exact decodes⟩
  · rintro ⟨placed, row, holds⟩
    have held := holds.held
    have decodes := holds.decodes
    rw [placed] at held decodes
    exact ⟨row, held, decodes⟩

end Leaving

/-! ## The plan so far -/

/-- The loops of the plan have run over every row. -/
structure Prepared (P : Primitives) (state : SyncStateV3) (spaces : BTreeMap SpaceStateV3) (draws : List String)
    (now : Nat) (library : RepositorySnapshot) (locals : List HostRecord) (used : List (Option String × String))
    (assigned : Assigning) (final : Planning) (hosts : List (Assigned × HostPayload))
    (groups : List (Assigned × GroupPayload)) : Prop where
  leaving : Leaving P state spaces draws library
  readLocals : localHosts P state = .ok locals
  onDevice : ∀ host, host ∈ locals ↔ host.scope = .Local ∧ ∃ row, Holds P (sourceState state spaces) host row
  distinctLocals : (locals.map (·.id)).Nodup
  assigns : assignIds state spaces draws = .ok assigned
  rows : assigned.rows = assignedRows spaces draws
  renames : Renames spaces draws assigned.remap
  readNames : localNames state = .ok used
  names : ∀ name, name ∈ used ↔ ∃ id found, LiveGroup (sourceState state spaces) .Local id found ∧
    name = siblingName found.payload
  ran : assigned.rows.foldlM (planRow P state.deviceId now assigned.remap)
    { names := used, aliases := locals.map (·.payload.aliasName), existing := locals, hosts := [], groups := [] } =
      .ok final
  copied : Copied P state.deviceId now (remapped assigned.remap) locals used (assignedRows spaces draws) final
    hosts groups

theorem Leaving.prepared (leaving : Leaving P state spaces draws library) (now : Nat) :
    ∃ locals used assigned final hosts groups,
      Prepared P state spaces draws now library locals used assigned final hosts groups := by
  obtain ⟨locals, localsRan, distinct, mem⟩ := leaving.localHosts_ok
  obtain ⟨distinctAliases, plainAliases⟩ := leaving.local_aliases mem distinct
  obtain ⟨assigned, assigns, rows, renames⟩ :=
    assignIds_ok leaving.fresh leaving.leavable.apart leaving.leavable.distinct
  obtain ⟨used, namesRan, plainNames, names⟩ := leaving.localNames_ok
  have start : Copied P state.deviceId now (remapped assigned.remap) locals used []
      { names := used, aliases := locals.map (·.payload.aliasName), existing := locals, hosts := [], groups := [] }
      [] [] := by
    refine
      { hostRows := rfl, groupRows := rfl, hostCopies := by simp, groupCopies := by simp, plannedHosts := rfl
        plannedGroups := rfl, existing := by simp, aliases := fun _ => Iff.rfl, distinctAliases
        names := fun _ member => member, taken := by simp, distinctNames := by simp, apartNames := by simp }
  obtain ⟨final, hosts, groups, ran, copied⟩ := planRows_copies (assignedRows spaces draws) start leaving.fresh.hex
    plainNames plainAliases (fun row member => leaving.copyable renames (by simpa using member))
    (by simpa using leaving.fresh.distinct.sublist assigned_ids.sublist)
  exact ⟨locals, used, assigned, final, hosts, groups,
    { leaving, readLocals := localsRan, onDevice := mem, distinctLocals := distinct, assigns, rows, renames
      readNames := namesRan, names, ran := by rw [rows, ran], copied := by simpa using copied }⟩

end Sshelter.Sync.RecordLeave
