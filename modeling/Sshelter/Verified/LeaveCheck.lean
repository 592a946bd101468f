import Sshelter.Verified.LeaveSettings

/-! # The plan passes its own check

`validate_plan` works each copy out again from its source row and from what the plan says
about the others.  It finds what the loops wrote.
-/

namespace Sshelter.Sync.RecordLeave

variable {P : Primitives} {state : SyncStateV3} {spaces : BTreeMap SpaceStateV3} {draws : List String}
  {library : RepositorySnapshot} {now : Nat} {locals : List HostRecord}
  {used : List (Option String × String)} {assigned : Assigning} {final : Planning}
  {hosts : List (Assigned × HostPayload)} {groups : List (Assigned × GroupPayload)}

/-- A loop over records with ids and sources of their own. -/
theorem seen_run {β : Type} {items : List β} {id : β → String} {source : β → String × String}
    {step : PlanSeen → β → Leave PlanSeen} (seen : PlanSeen)
    (each : ∀ item ∈ items, ∀ seen : PlanSeen, seen.repeats (id item) (source item) = false →
      step seen item = .ok (seen.add (id item) (source item)))
    (ids : (items.map id).Nodup) (sources : (items.map source).Nodup)
    (new : ∀ item ∈ items, id item ∉ seen.ids ∧ source item ∉ seen.sources) :
    ∃ result, items.foldlM step seen = .ok result ∧
      (∀ known ∈ result.ids, known ∈ seen.ids ∨ known ∈ items.map id) ∧
      ∀ known ∈ result.sources, known ∈ seen.sources ∨ known ∈ items.map source := by
  induction items generalizing seen with
  | nil => exact ⟨seen, rfl, fun _ known => .inl known, fun _ known => .inl known⟩
  | cons item rest ih =>
    rw [List.map_cons, List.nodup_cons] at ids sources
    obtain ⟨newId, newSource⟩ := new item List.mem_cons_self
    have step_ok := each item List.mem_cons_self seen (by simp [PlanSeen.repeats, newId, newSource])
    obtain ⟨result, ran, inIds, inSources⟩ := ih (seen.add (id item) (source item))
      (fun other member => each other (List.mem_cons_of_mem _ member)) ids.2 sources.2 (by
        intro other member
        obtain ⟨otherId, otherSource⟩ := new other (List.mem_cons_of_mem _ member)
        simp only [PlanSeen.add, List.mem_cons, not_or]
        refine ⟨⟨fun same => ids.1 ?_, otherId⟩, ⟨fun same => sources.1 ?_, otherSource⟩⟩
        · exact List.mem_map.mpr ⟨other, member, same⟩
        · exact List.mem_map.mpr ⟨other, member, same⟩)
    refine ⟨result, by rw [List.foldlM_cons, step_ok, Result.ok_bind, ran], ?_, ?_⟩
    · intro known member
      obtain before | later := inIds known member
      · obtain rfl | before := List.mem_cons.mp before
        · exact .inr List.mem_cons_self
        · exact .inl before
      · exact .inr (List.mem_cons_of_mem _ later)
    · intro known member
      obtain before | later := inSources known member
      · obtain rfl | before := List.mem_cons.mp before
        · exact .inr List.mem_cons_self
        · exact .inl before
      · exact .inr (List.mem_cons_of_mem _ later)

namespace Prepared

variable (prepared : Prepared P state spaces draws now library locals used assigned final hosts groups)
include prepared

theorem distinct_sources : ((assignedRows spaces draws).map (·.source.record.id)).Nodup := by
  have rows := prepared.leaving.leavable.distinct
  rwa [← assigned_sources prepared.leaving.fresh.enough, List.map_map] at rows

theorem distinct_host_sources : (hosts.map fun copy => copy.1.source.record.id).Nodup := by
  have rows := prepared.distinct_sources.sublist
    ((List.filter_sublist (p := fun row : Assigned => row.source.record.kind != .Group)).map (·.source.record.id))
  rwa [← prepared.copied.hostRows, List.map_map] at rows

theorem distinct_group_sources : (groups.map fun copy => copy.1.source.record.id).Nodup := by
  have rows := prepared.distinct_sources.sublist
    ((List.filter_sublist (p := fun row : Assigned => row.source.record.kind == .Group)).map (·.source.record.id))
  rwa [← prepared.copied.groupRows, List.map_map] at rows

/-- The plan as it is made. -/
theorem hostRemap_eq (plan : LeavePlan) (planned : plan.hosts = final.hosts) {id : String}
    (notGroup : ∀ entry ∈ liveRows spaces, entry.2.record.kind = .Group → entry.2.record.id ≠ id) :
    remapped plan.hostRemap id = remapped assigned.remap id := by
  have written : plan.hostRemap = (∅ : BTreeMap String).insertAll
      (hosts.map fun copy => (copy.1.source.record.id, copy.1.id)) := by
    simp only [LeavePlan.hostRemap, planned, prepared.copied.plannedHosts, BTreeMap.insertAll, List.foldl_map]
    rfl
  have keys : ((hosts.map fun copy => (copy.1.source.record.id, copy.1.id)).map Prod.fst).Nodup := by
    rw [List.map_map]
    exact prepared.distinct_host_sources
  by_cases known : ∃ row ∈ assignedRows spaces draws, row.source.record.id = id
  · obtain ⟨row, member, rfl⟩ := known
    have live := assigned_live prepared.leaving.fresh.enough member
    have inRows : row ∈ hosts.map Prod.fst := by
      rw [prepared.copied.hostRows]
      refine List.mem_filter.mpr ⟨member, ?_⟩
      simp only [bne_iff_ne, ne_eq]
      exact fun kind => notGroup _ live kind rfl
    obtain ⟨copy, inHosts, rfl⟩ := List.mem_map.mp inRows
    have entry : (copy.1.source.record.id, copy.1.id) ∈
        hosts.map fun copy => (copy.1.source.record.id, copy.1.id) := List.mem_map.mpr ⟨copy, inHosts, rfl⟩
    rw [prepared.renames.moved member, remapped, written, BTreeMap.get?_insertAll_of_mem keys entry,
      Option.getD_some]
  · have absent : id ∉ (hosts.map fun copy => (copy.1.source.record.id, copy.1.id)).map Prod.fst := by
      rw [List.map_map]
      intro here
      obtain ⟨copy, inHosts, same⟩ := List.mem_map.mp here
      exact known ⟨copy.1, (prepared.row_of_host_copy inHosts).1, same⟩
    rw [prepared.renames.fixed fun row member same => known ⟨row, member, same⟩, remapped, written,
      BTreeMap.get?_insertAll_of_not_mem absent]
    simp

theorem groupRemap_live (plan : LeavePlan) (planned : plan.groups = final.groups) {entry : String × LocalRecord}
    (live : entry ∈ liveRows spaces) (kind : entry.2.record.kind = .Group) :
    plan.groupRemap[entry.2.record.id]? = some (remapped assigned.remap entry.2.record.id) := by
  have written : plan.groupRemap = (∅ : BTreeMap String).insertAll
      (groups.map fun copy => (copy.1.source.record.id, copy.1.id)) := by
    simp only [LeavePlan.groupRemap, planned, prepared.copied.plannedGroups, BTreeMap.insertAll, List.foldl_map]
    rfl
  have keys : ((groups.map fun copy => (copy.1.source.record.id, copy.1.id)).map Prod.fst).Nodup := by
    rw [List.map_map]
    exact prepared.distinct_group_sources
  obtain ⟨copy, inGroups, _, source⟩ := prepared.group_copy_of_live live kind
  rw [← source, prepared.renames.moved (prepared.row_of_group_copy inGroups).1, written]
  exact BTreeMap.get?_insertAll_of_mem keys (List.mem_map.mpr ⟨copy, inGroups, rfl⟩)

theorem remapGroup_live (plan : LeavePlan) (planned : plan.groups = final.groups) {text : String}
    {groupId : Option String} (known : ∀ id ∈ groupId, ∃ entry ∈ liveRows spaces,
      entry.2.record.kind = .Group ∧ entry.2.record.id = id) :
    remapGroup plan.groupRemap text groupId = .ok (groupId.map (remapped assigned.remap)) := by
  cases groupId with
  | none => rfl
  | some id =>
    obtain ⟨entry, live, kind, rfl⟩ := known id rfl
    simp only [remapGroup, orMissing, prepared.groupRemap_live plan planned live kind, Result.ok_bind,
      Option.map_some]
    rfl

/-- The source row of a copy, as the check of the plan looks it up. -/
theorem source_row (plan : LeavePlan) (sources : plan.sourceSpaces = spaces) {row : Assigned}
    (member : row ∈ assignedRows spaces draws) :
    plan.source row.spaceId row.source.record.kind row.source.record.id = some row.source ∧
      row.source.record.deleted = false := by
  have live := assigned_live prepared.leaving.fresh.enough member
  exact ⟨prepared.leaving.source_live sources live, (prepared.leaving.live_row live).2.1⟩

theorem valid_host_copy {copy : Assigned × HostPayload} (member : copy ∈ hosts) :
    validateHostShape P (copiedHost copy) = .ok () ∧ copy.1.source.record.kind = .Host := by
  obtain ⟨inRows, _⟩ := prepared.row_of_host_copy member
  obtain ⟨found, decodes, shape, naming⟩ := prepared.copied.hostCopies copy member
  obtain ⟨kind, _, _, _, _, valid⟩ := decodeHost_live decodes
  have hex := prepared.leaving.fresh.hex _ (assigned_drawn inRows)
  have hexes := valid
  simp only [validateHostShape, Result.check_eq_ok, Result.refuse_eq_ok, Bool.or_eq_false_iff,
    List.any_eq_false] at hexes
  obtain ⟨_, _, ⟨groupHex, _⟩, _, _, cli, _, _, _, _, _, _, jumpsHex, _⟩ := hexes
  have ownAlias : isCliAlias found.payload.aliasName = true := by simpa using cli
  refine ⟨?_, kind⟩
  rw [copiedHost, shape]
  refine validateHostShape_moved valid hex ?_ ?_ ?_
  · obtain same | apart := naming
    · rwa [same]
    · rw [apart]
      exact isCliAlias_remapped ownAlias hex
  · intro group grouped
    rw [grouped] at groupHex
    exact prepared.rename_hex (by simpa using groupHex)
  · intro jump inJumps
    exact prepared.rename_hex (by simpa using jumpsHex jump inJumps)

theorem decodes_host_copy {copy : Assigned × HostPayload} (member : copy ∈ hosts) :
    decodeHost P (plannedHost state.deviceId now copy).local.record .Local = .ok (.Live (copiedHost copy)) := by
  obtain ⟨valid, kind⟩ := prepared.valid_host_copy member
  obtain ⟨inRows, _⟩ := prepared.row_of_host_copy member
  have live := (prepared.leaving.live_row (assigned_live prepared.leaving.fresh.enough inRows)).2.1
  exact decodeHost_copied kind live valid

theorem decodes_group_copy {copy : Assigned × GroupPayload} (member : copy ∈ groups) :
    decodeGroup (plannedGroup state.deviceId now copy).local.record .Local =
      .ok (.Live { id := copy.1.id, scope := .Local, payload := copy.2 }) := by
  obtain ⟨inRows, kind⟩ := prepared.row_of_group_copy member
  have live := (prepared.leaving.live_row (assigned_live prepared.leaving.fresh.enough inRows)).2.1
  exact decodeGroup_copied kind live (prepared.valid_group_copy member)

/-- The plan as the loops leave it. -/
def made (spaces : BTreeMap SpaceStateV3) (final : Planning) : LeavePlan :=
  { groups := final.groups, sourceSpaces := spaces, hosts := final.hosts, passwordsCopied := [] }

theorem checks_host {copy : Assigned × HostPayload} (member : copy ∈ hosts) (seen : PlanSeen)
    (new : seen.repeats copy.1.id (copy.1.spaceId, copy.1.source.record.id) = false) :
    validatePlannedHost P (made spaces final) seen (plannedHost state.deviceId now copy) =
      .ok (seen.add copy.1.id (copy.1.spaceId, copy.1.source.record.id)) := by
  obtain ⟨inRows, _⟩ := prepared.row_of_host_copy member
  have live := assigned_live prepared.leaving.fresh.enough inRows
  obtain ⟨valid, kind⟩ := prepared.valid_host_copy member
  obtain ⟨found, decodes, shape, naming⟩ := prepared.copied.hostCopies copy member
  obtain ⟨_, _, _, _, read, _⟩ := decodeHost_live decodes
  obtain ⟨row, alive⟩ := prepared.source_row (made spaces final) rfl inRows
  rw [kind] at row
  -- the source row of the copy is among the rows of its space
  have source : ((made spaces final).source copy.1.spaceId .Host copy.1.source.record.id).filter
      (fun row => !row.record.deleted) = some copy.1.source := by
    rw [row]
    simp [Option.filter, alive]
  have groupId : remapGroup (made spaces final).groupRemap "missing preserved group" found.payload.groupId =
      .ok (found.payload.groupId.map (remapped assigned.remap)) := by
    apply prepared.remapGroup_live _ rfl
    intro id grouped
    obtain ⟨host, placed, _, _, holds⟩ := prepared.leaving.live_host live (by simp [kind])
    obtain ⟨view, inHosts, rfl, _⟩ := exists_view prepared.leaving.listed holds
    have same := decodeHost_local holds.decodes
    rw [decodes] at same
    cases same
    obtain ⟨parent, read⟩ := prepared.leaving.group_of_host inHosts grouped
    rw [placed] at read
    obtain ⟨entry, inLive, isGroup, named, _⟩ := prepared.leaving.group_live read
    exact ⟨_, inLive, isGroup, named⟩
  -- the plan's map and the renaming agree on the ids of live hosts
  have jumps : found.payload.jump.map (remapped (made spaces final).hostRemap) =
      found.payload.jump.map (remapped assigned.remap) := by
    apply List.map_congr_left
    intro jump inJumps
    apply prepared.hostRemap_eq _ rfl
    intro other inLive isGroup
    refine prepared.leaving.leavable.jumps _ live jump ?_ other inLive isGroup
    rw [rowJumps, if_neg (by simp [kind]), read]
    exact inJumps
  have payload : remapHostPayload (made spaces final).hostRemap
      (found.payload.groupId.map (remapped assigned.remap))
      { found.payload with aliasName := copy.2.aliasName } = copy.2 := by
    rw [remapHostPayload, jumps]
    exact shape.symm
  have aliases : (copy.2.aliasName != found.payload.aliasName &&
      copy.2.aliasName != remappedAlias found.payload.aliasName copy.1.id) = false := by
    obtain same | apart := naming
    · simp [same]
    · simp [apart]
  have hex : isHostId copy.1.id = true := prepared.leaving.fresh.hex _ (assigned_drawn inRows)
  have planned : orFail (decodeHost P (plannedHost state.deviceId now copy).local.record .Local)
      "invalid planned local host" = .ok (.Live (copiedHost copy)) := by
    rw [prepared.decodes_host_copy member]
    rfl
  have original : orFail (decodeHost P copy.1.source.record .Local) "invalid leave source host" =
      .ok (.Live found) := by
    rw [decodes]
    rfl
  unfold validatePlannedHost
  simp only [plannedHost, copiedRow, hex, Bool.not_true, Bool.false_or, new, Result.refuse_false, Result.ok_bind,
    source, orMissing]
  simp only [plannedHost, copiedRow] at planned
  simp only [planned, original, Result.ok_bind, orDeleted, aliases, Result.refuse_false, groupId, payload, copiedHost,
    bne_self_eq_false, Bool.or_self]
  rfl

theorem checks_group {copy : Assigned × GroupPayload} (member : copy ∈ groups) (seen : PlanSeen)
    (new : seen.repeats copy.1.id (copy.1.spaceId, copy.1.source.record.id) = false) :
    validatePlannedGroup (made spaces final) seen (plannedGroup state.deviceId now copy) =
      .ok (seen.add copy.1.id (copy.1.spaceId, copy.1.source.record.id)) := by
  obtain ⟨inRows, kind⟩ := prepared.row_of_group_copy member
  have live := assigned_live prepared.leaving.fresh.enough inRows
  obtain ⟨found, decodes, shape, naming⟩ := prepared.copied.groupCopies copy member
  obtain ⟨_, _, _, _, read⟩ := decodeGroup_live decodes
  obtain ⟨row, _⟩ := prepared.source_row (made spaces final) rfl inRows
  rw [kind] at row
  have parentId : remapGroup (made spaces final).groupRemap "missing preserved parent" found.payload.parentId =
      .ok (found.payload.parentId.map (remapped assigned.remap)) := by
    apply prepared.remapGroup_live _ rfl
    intro parent above
    refine prepared.leaving.leavable.parents _ live parent ?_
    rw [rowParent, if_pos kind, read]
    exact above
  have jumps : found.payload.defaults.jump.map (List.map (remapped (made spaces final).hostRemap)) =
      found.payload.defaults.jump.map (List.map (remapped assigned.remap)) := by
    apply Option.map_congr
    intro list given
    apply List.map_congr_left
    intro jump inJumps
    apply prepared.hostRemap_eq _ rfl
    intro other inLive isGroup
    refine prepared.leaving.leavable.jumps _ live jump ?_ other inLive isGroup
    rw [rowJumps, if_pos kind, read, Option.bind_some, given]
    exact inJumps
  have payload : { remapGroupPayload (made spaces final).hostRemap
      (found.payload.parentId.map (remapped assigned.remap)) found.payload with name := copy.2.name } = copy.2 := by
    rw [remapGroupPayload, jumps]
    exact shape.symm
  have names : (copy.2.name != found.payload.name &&
      copy.2.name != remappedGroupName found.payload.name copy.1.id) = false := by
    obtain same | apart := naming
    · simp [same]
    · simp [apart]
  have planned : orFail (decodeGroup (plannedGroup state.deviceId now copy).local.record .Local)
      "invalid preserved group" = .ok (.Live { id := copy.1.id, scope := .Local, payload := copy.2 }) := by
    rw [prepared.decodes_group_copy member]
    rfl
  have original : orFail (decodeGroup copy.1.source.record .Local) "invalid group source" = .ok (.Live found) := by
    rw [decodes]
    rfl
  unfold validatePlannedGroup
  simp only [plannedGroup, copiedRow, new, Result.refuse_false, Result.ok_bind, row, orMissing]
  simp only [plannedGroup, copiedRow] at planned
  simp only [planned, original, Result.ok_bind, orDeleted, parentId]
  have named : (remapGroupPayload (made spaces final).hostRemap
      (found.payload.parentId.map (remapped assigned.remap)) found.payload).name = found.payload.name := rfl
  simp only [named, names, Result.refuse_false, Result.ok_bind, payload, bne_self_eq_false, Bool.or_self]
  rfl

theorem checks_space {entry : String × SpaceStateV3} (member : entry ∈ spaces.toList) :
    validateSourceSpace P entry = .ok () := by
  obtain ⟨spaceId, space⟩ := entry
  have found := BTreeMap.mem_toList.mp member
  have scope := prepared.leaving.space_readable found
  obtain ⟨selected, present⟩ := prepared.leaving.selected spaceId space found
  have chain : isChainId spaceId = true := prepared.leaving.readable.header.spaces spaceId space found
  have records : (sourceState state spaces).spaceRecords spaceId = space.records := by
    simp [SyncStateV3.spaceRecords, sourceState, found]
  rw [validateSourceSpace]
  simp only [chain, selected, present, Bool.not_true, Bool.or_self, Result.refuse_false, Result.ok_bind]
  rw [Result.forEach_eq_ok]
  rintro ⟨key, row⟩ inRows
  have held : ((sourceState state spaces).spaceRecords spaceId)[key]? = some row := by
    rw [records]
    exact BTreeMap.mem_toList.mp inRows
  have readable := prepared.leaving.readable.hosts _ scope key row held
  by_cases kind : row.record.kind = .Group
  · have grouped := (prepared.leaving.readable.groups _ scope key row held).decodes kind
    obtain ⟨value, decodes⟩ := Result.isOk_iff.mp grouped
    simp only [validateSourceRow, readable.cached.key, kind, bne_self_eq_false, decodes, orFail, Except.mapError,
      Result.ok_bind, if_true, beq_self_eq_true, Bool.or_true, Bool.not_true, Bool.or_self, Result.refuse_false]
    rfl
  · obtain ⟨value, decodes⟩ := Result.isOk_iff.mp (readable.decodes kind)
    have isHost : row.record.kind = .Host := by
      rw [decodeHost, Result.check_eq_ok] at decodes
      simpa using decodes.1
    simp only [validateSourceRow, readable.cached.key, isHost, bne_self_eq_false, decodes, orFail, Except.mapError,
      Result.ok_bind, if_false, reduceCtorEq, beq_self_eq_true, Bool.true_or, Bool.not_true, Bool.or_self,
      Result.refuse_false]
    rfl

/-- Every live row was copied, once. -/
theorem copies_count : (spaces.values.map liveCount).sum = final.hosts.length + final.groups.length := by
  have rows : (spaces.values.map liveCount).sum = (liveRows spaces).length := by
    rw [liveRows, List.length_flatMap, BTreeMap.values, List.map_map]
    congr 1
    apply List.map_congr_left
    intro entry _
    rw [Function.comp_apply, liveCount, List.countP_eq_length_filter, List.length_map]
  have assignedLength : (liveRows spaces).length = (assignedRows spaces draws).length := by
    rw [← assigned_sources prepared.leaving.fresh.enough, List.length_map]
  have hostLength : hosts.length = ((assignedRows spaces draws).filter
      fun row => row.source.record.kind != .Group).length := by
    rw [← prepared.copied.hostRows, List.length_map]
  have groupLength : groups.length = ((assignedRows spaces draws).filter
      fun row => row.source.record.kind == .Group).length := by
    rw [← prepared.copied.groupRows, List.length_map]
  rw [rows, assignedLength, prepared.copied.plannedHosts, prepared.copied.plannedGroups, List.length_map,
    List.length_map, hostLength, groupLength,
    List.length_eq_length_filter_add fun row : Assigned => row.source.record.kind == .Group, Nat.add_comm]
  rfl

theorem validatePlan_ok : validatePlan P (made spaces final) = .ok () := by
  have spacesOk : forEach (made spaces final).sourceSpaces.toList (validateSourceSpace P) = .ok () :=
    Result.forEach_eq_ok.mpr fun entry member => prepared.checks_space member
  -- hosts and groups are checked with one set of seen ids, so neither may repeat the other
  have apart : ∀ copy ∈ groups, ∀ other ∈ hosts, copy.1.id ≠ other.1.id ∧
      copy.1.source.record.id ≠ other.1.source.record.id := by
    intro copy inGroups other inHosts
    obtain ⟨inRows, kind⟩ := prepared.row_of_group_copy inGroups
    obtain ⟨inRows', kind'⟩ := prepared.row_of_host_copy inHosts
    constructor
    · intro same
      rw [List.inj_on_of_nodup_map prepared.distinct_rows inRows inRows' same] at kind
      exact kind' kind
    · intro same
      rw [List.inj_on_of_nodup_map prepared.distinct_sources inRows inRows' same] at kind
      exact kind' kind
  have hostIds : (hosts.map fun copy => copy.1.id).Nodup := by
    have ids := prepared.distinct_existing
    rw [prepared.copied.existing, List.map_append, List.nodup_append, List.map_map] at ids
    exact ids.2.1
  have groupIds : (groups.map fun copy => copy.1.id).Nodup := by
    have keys := prepared.distinct_group_keys
    rw [List.map_map] at keys
    exact List.Nodup.of_map (recordKey .Group) (by rw [List.map_map]; exact keys)
  have hostSources : (hosts.map fun copy => (copy.1.spaceId, copy.1.source.record.id)).Nodup := by
    apply List.Nodup.of_map Prod.snd
    rw [List.map_map]
    exact prepared.distinct_host_sources
  have groupSources : (groups.map fun copy => (copy.1.spaceId, copy.1.source.record.id)).Nodup := by
    apply List.Nodup.of_map Prod.snd
    rw [List.map_map]
    exact prepared.distinct_group_sources
  obtain ⟨seen, hostsRan, inIds, inSources⟩ := seen_run
    { ids := [], sources := [] } (fun copy member seen new => prepared.checks_host member seen new) hostIds
    hostSources (fun copy _ => ⟨by simp, by simp⟩)
  obtain ⟨result, groupsRan, _⟩ := seen_run
    seen (fun copy member seen new => prepared.checks_group member seen new) groupIds groupSources (by
      intro copy member
      constructor
      · intro known
        obtain before | later := inIds _ known
        · cases before
        · obtain ⟨other, inHosts, same⟩ := List.mem_map.mp later
          exact (apart copy member other inHosts).1 same.symm
      · intro known
        obtain before | later := inSources _ known
        · cases before
        · obtain ⟨other, inHosts, same⟩ := List.mem_map.mp later
          exact (apart copy member other inHosts).2 (Prod.mk.inj same).2.symm)
  have hostsLoop : (made spaces final).hosts.foldlM (validatePlannedHost P (made spaces final))
      { ids := [], sources := [] } = .ok seen := by
    rw [made, prepared.copied.plannedHosts, List.foldlM_map]
    simp only [made, prepared.copied.plannedHosts] at hostsRan
    exact hostsRan
  have groupsLoop : (made spaces final).groups.foldlM (validatePlannedGroup (made spaces final)) seen =
      .ok result := by
    rw [made, prepared.copied.plannedGroups, List.foldlM_map]
    simp only [made, prepared.copied.plannedGroups] at groupsRan
    exact groupsRan
  have count : (((made spaces final).sourceSpaces.values.map liveCount).sum !=
      (made spaces final).hosts.length + (made spaces final).groups.length) = false := by
    rw [bne_eq_false_iff_eq]
    exact prepared.copies_count
  rw [validatePlan, spacesOk, Result.ok_bind, hostsLoop, Result.ok_bind, groupsLoop, Result.ok_bind]
  simp only [made, List.any_nil, Result.refuse_false, Result.ok_bind]
  simp only [made] at count
  rw [count, Result.refuse_false]

theorem plan_ok : plan P state spaces draws now = .ok (made spaces final) := by
  have resolve : ∀ host ∈ final.existing, ∃ effective,
      resolveEffective P (candidateState state final.groups) host = .ok effective := by
    intro host member
    obtain ⟨view, _, counterpart⟩ := prepared.view_of_existing member
    obtain ⟨effective, resolves, _⟩ := counterpart.resolves
    exact ⟨effective, resolves⟩
  simp only [plan, prepared.readLocals, prepared.assigns, prepared.readNames, Result.ok_bind, prepared.ran,
    effectiveHosts_eq resolve, orFail, Except.mapError, prepared.plan_hosts.validates]
  have checked := prepared.validatePlan_ok
  simp only [made] at checked ⊢
  rw [checked, Result.ok_bind]
  rfl

end Prepared

end Sshelter.Sync.RecordLeave
