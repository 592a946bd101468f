import Sshelter.Verified.LeaveActivation

/-! # What a plan asks for

A plan that is made says something about the library: no id was in use twice, every parent is
kept, and no record of this device needs a shared host.  So the plan exists for exactly those
libraries.
-/

namespace Sshelter.Sync.RecordLeave

variable {P : Primitives} {state : SyncStateV3} {spaces : BTreeMap SpaceStateV3} {draws : List String}
  {remap : BTreeMap String} {library : RepositorySnapshot} {now : Nat}

/-! ## The loops, read backwards -/

theorem orFail_eq_ok {ε α : Type} {result : Except ε α} {text : String} {value : α} :
    orFail result text = .ok value ↔ result = .ok value := Result.mapError_eq_ok

theorem orDeleted_eq_ok {α : Type} {decoded : TypedRecord α} {text : String} {value : α} :
    orDeleted decoded text = .ok value ↔ decoded = .Live value := by
  cases decoded <;> simp [orDeleted]

theorem localHosts_only {kept : List HostRecord} (read : localHosts P state = .ok kept) :
    ∀ row ∈ state.local.hosts.values, row.record.deleted = false → row.record.kind ≠ .Group := by
  intro row member live grouped
  have runs : ((state.local.hosts.values.filter fun row => !row.record.deleted).mapM (localHost P)).isOk = true :=
    Result.isOk_iff.mpr ⟨kept, read⟩
  obtain ⟨host, found⟩ := Result.isOk_iff.mp (Result.mapM_isOk.mp runs row (List.mem_filter.mpr ⟨member, by simp [live]⟩))
  rw [localHost, Result.bind_eq_ok] at found
  obtain ⟨decoded, decodes, _⟩ := found
  rw [orFail_eq_ok, decodeHost, Result.check_eq_ok, grouped] at decodes
  cases decodes.1

theorem assign_only {localIds : List String} {entries : List (String × LocalRecord)} {current final : Assigning}
    (ran : entries.foldlM (assignId localIds) current = .ok final) :
    (entries.map (·.2.record.id)).Nodup ∧ ∀ entry ∈ entries, entry.2.record.id ∉ localIds ∧
      current.remap[entry.2.record.id]? = none := by
  induction entries generalizing current with
  | nil => simp
  | cons entry rest ih =>
    obtain ⟨spaceId, source⟩ := entry
    rw [List.foldlM_cons, Result.bind_eq_ok] at ran
    obtain ⟨next, step, ran⟩ := ran
    simp only [assignId, Result.refuse_bind_eq_ok] at step
    obtain ⟨free, step⟩ := step
    obtain ⟨⟨id, later⟩, _, same⟩ := Result.bind_eq_ok.mp step
    cases same
    rw [Bool.or_eq_false_iff, BTreeMap.contains_eq, Option.isSome_eq_false_iff, Option.isNone_iff_eq_none] at free
    obtain ⟨distinct, apart⟩ := ih ran
    have new : ∀ other ∈ rest, source.record.id ≠ other.2.record.id := by
      intro other member same
      have taken := (apart other member).2
      rw [← same, BTreeMap.get?_insert_self] at taken
      cases taken
    refine ⟨List.nodup_cons.mpr ⟨?_, distinct⟩, ?_⟩
    · intro member
      obtain ⟨other, inRest, same⟩ := List.mem_map.mp member
      exact new other inRest same.symm
    · intro other member
      obtain rfl | later := List.mem_cons.mp member
      · exact ⟨by simpa using free.1, free.2⟩
      · obtain ⟨notLocal, absent⟩ := apart other later
        rw [BTreeMap.get?_insert_ne _ _ (new other later)] at absent
        exact ⟨notLocal, absent⟩

/-- The copies a loop made, whether or not they clash. -/
structure Made (P : Primitives) (deviceId : String) (now : Nat) (remap : BTreeMap String) (rows : List Assigned)
    (current final : Planning) (hosts : List (Assigned × HostPayload)) (groups : List (Assigned × GroupPayload)) :
    Prop where
  hostRows : hosts.map Prod.fst = rows.filter fun row => row.source.record.kind != .Group
  groupRows : groups.map Prod.fst = rows.filter fun row => row.source.record.kind == .Group
  plannedHosts : final.hosts = current.hosts ++ hosts.map (plannedHost deviceId now)
  plannedGroups : final.groups = current.groups ++ groups.map (plannedGroup deviceId now)
  existing : final.existing = current.existing ++ hosts.map copiedHost
  hostJumps : ∀ copy ∈ hosts, ∃ found, decodeHost P copy.1.source.record .Local = .ok (.Live found) ∧
    copy.2.jump = found.payload.jump.map (remapped remap)
  groupJumps : ∀ copy ∈ groups, ∃ found, decodeGroup copy.1.source.record .Local = .ok (.Live found) ∧
    copy.2.defaults.jump = found.payload.defaults.jump.map (List.map (remapped remap))

theorem orMissing_eq_ok {α : Type} {found : Option α} {text : String} {value : α} :
    orMissing found text = .ok value ↔ found = some value := by
  cases found <;> simp [orMissing]

theorem planGroup_made {deviceId : String} {current next : Planning} {row : Assigned}
    (ran : planGroup deviceId now remap current row = .ok next) :
    ∃ p found, decodeGroup row.source.record .Local = .ok (.Live found) ∧
      p.defaults.jump = found.payload.defaults.jump.map (List.map (remapped remap)) ∧
      next.hosts = current.hosts ∧ next.existing = current.existing ∧
      next.groups = current.groups ++ [plannedGroup deviceId now (row, p)] := by
  simp only [planGroup, Result.bind_eq_ok, orFail_eq_ok, orDeleted_eq_ok] at ran
  obtain ⟨_, decodes, found, rfl, parentId, _, same⟩ := ran
  cases same
  let wanted := remapGroupPayload remap parentId found.payload
  refine ⟨if current.names.contains (siblingName wanted) then
    { wanted with name := remappedGroupName wanted.name row.id } else wanted, found, decodes, ?_, rfl, rfl, rfl⟩
  split <;> rfl

theorem planHost_made {deviceId : String} {current next : Planning} {row : Assigned}
    (ran : planHost P deviceId now remap current row = .ok next) :
    ∃ p found, decodeHost P row.source.record .Local = .ok (.Live found) ∧
      p.jump = found.payload.jump.map (remapped remap) ∧
      next.hosts = current.hosts ++ [plannedHost deviceId now (row, p)] ∧
      next.existing = current.existing ++ [copiedHost (row, p)] ∧ next.groups = current.groups := by
  simp only [planHost, Result.bind_eq_ok, orFail_eq_ok, orDeleted_eq_ok] at ran
  obtain ⟨_, decodes, found, rfl, groupId, _, aliasName, _, same⟩ := ran
  cases same
  exact ⟨_, found, decodes, rfl, rfl, rfl, rfl⟩

theorem planRows_made {deviceId : String} {rows : List Assigned} {current final : Planning}
    (ran : rows.foldlM (planRow P deviceId now remap) current = .ok final) :
    ∃ hosts groups, Made P deviceId now remap rows current final hosts groups := by
  -- each row is planned as a group or as a host, and adds its copy to that list only
  induction rows generalizing current with
  | nil =>
    cases ran
    exact ⟨[], [], rfl, rfl, by simp, by simp, by simp, by simp, by simp⟩
  | cons row rest ih =>
    rw [List.foldlM_cons, Result.bind_eq_ok] at ran
    obtain ⟨next, step, ran⟩ := ran
    obtain ⟨hosts, groups, made⟩ := ih ran
    by_cases kind : row.source.record.kind = .Group
    · rw [planRow, if_pos kind] at step
      obtain ⟨p, found, decodes, jumps, sameHosts, sameExisting, grown⟩ := planGroup_made step
      refine ⟨hosts, (row, p) :: groups, ?_⟩
      exact
        { hostRows := by simp [made.hostRows, kind]
          groupRows := by simp [made.groupRows, kind]
          plannedHosts := by rw [made.plannedHosts, sameHosts]
          plannedGroups := by rw [made.plannedGroups, grown]; simp
          existing := by rw [made.existing, sameExisting]
          hostJumps := made.hostJumps
          groupJumps := by
            intro copy member
            obtain rfl | later := List.mem_cons.mp member
            · exact ⟨found, decodes, jumps⟩
            · exact made.groupJumps copy later }
    · rw [planRow, if_neg kind] at step
      obtain ⟨p, found, decodes, jumps, grown, grownExisting, sameGroups⟩ := planHost_made step
      refine ⟨(row, p) :: hosts, groups, ?_⟩
      exact
        { hostRows := by simp [made.hostRows, kind]
          groupRows := by simp [made.groupRows, kind]
          plannedHosts := by rw [made.plannedHosts, grown]; simp
          plannedGroups := by rw [made.plannedGroups, sameGroups]
          existing := by rw [made.existing, grownExisting]; simp
          hostJumps := by
            intro copy member
            obtain rfl | later := List.mem_cons.mp member
            · exact ⟨found, decodes, jumps⟩
            · exact made.hostJumps copy later
          groupJumps := made.groupJumps }

/-- A plan that was made, with what its loops left. -/
structure PlanSteps (P : Primitives) (state : SyncStateV3) (spaces : BTreeMap SpaceStateV3) (draws : List String)
    (now : Nat) (kept effective : List HostRecord) (assigned : Assigning) (start final : Planning)
    (hosts : List (Assigned × HostPayload)) (groups : List (Assigned × GroupPayload)) : Prop where
  readLocals : localHosts P state = .ok kept
  assigns : assignIds state spaces draws = .ok assigned
  starts : start.hosts = [] ∧ start.groups = [] ∧ start.existing = kept
  made : Made P state.deviceId now assigned.remap assigned.rows start final hosts groups
  resolves : effectiveHosts P (candidateState state final.groups) final.existing = .ok effective
  routes : RecordsV3.validateHosts P effective = .ok ()
  checked : validatePlan P (Prepared.made spaces final) = .ok ()

theorem plan_steps {planned : LeavePlan} (ran : plan P state spaces draws now = .ok planned) :
    ∃ kept effective assigned start final hosts groups,
      PlanSteps P state spaces draws now kept effective assigned start final hosts groups := by
  simp only [plan, Result.bind_eq_ok, orFail_eq_ok] at ran
  obtain ⟨kept, readLocals, assigned, assigns, names, _, final, looped, effective, resolves, ⟨⟩, routes, ⟨⟩, checked,
    _⟩ := ran
  obtain ⟨hosts, groups, made⟩ := planRows_made looped
  exact ⟨kept, effective, assigned, _, final, hosts, groups,
    { readLocals, assigns, starts := ⟨rfl, rfl, rfl⟩, made, resolves, routes, checked }⟩

/-! ## What was checked -/

/-- Every step of a loop that ends well went well. -/
theorem stepped {ε σ β : Type} {step : σ → β → Except ε σ} {items : List β} {start final : σ}
    (ran : items.foldlM step start = .ok final) {item : β} (member : item ∈ items) :
    ∃ before after, step before item = .ok after := by
  induction items generalizing start with
  | nil => cases member
  | cons first rest ih =>
    rw [List.foldlM_cons, Result.bind_eq_ok] at ran
    obtain ⟨next, step_ok, ran⟩ := ran
    obtain rfl | later := List.mem_cons.mp member
    · exact ⟨start, next, step_ok⟩
    · exact ih ran later

/-- The ids that the index of a set of hosts knows are theirs. -/
theorem indexed_id {hosts : List HostRecord} {index final : RecordsV3.HostIndex}
    (ran : hosts.foldlM (RecordsV3.indexHost P) index = .ok final) {id : String}
    (known : (final.ids[id]?).isSome = true) : (index.ids[id]?).isSome = true ∨ ∃ host ∈ hosts, host.id = id := by
  induction hosts generalizing index with
  | nil =>
    cases ran
    exact .inl known
  | cons host rest ih =>
    rw [List.foldlM_cons, Result.bind_eq_ok] at ran
    obtain ⟨next, step, ran⟩ := ran
    rw [RecordsV3.indexHost, Result.check_eq_ok, Result.refuse_bind_eq_ok, Result.refuse_bind_eq_ok] at step
    obtain ⟨_, _, _, same⟩ := step
    cases same
    obtain before | ⟨other, member, named⟩ := ih ran
    · by_cases own : host.id = id
      · exact .inr ⟨host, List.mem_cons_self, own⟩
      · rw [BTreeMap.get?_insert_ne _ _ own] at before
        exact .inl before
    · exact .inr ⟨other, List.mem_cons_of_mem _ member, named⟩

theorem found_of_findJump {hosts : BTreeMap HostRecord} {current jump : HostRecord} {root id : String}
    {stack : List String} (found : RecordsV3.findJump hosts current root stack id = .ok jump) :
    (hosts[id]?).isSome = true := by
  rw [RecordsV3.findJump] at found
  split at found
  · cases found
  · rename_i here
    rw [here, Option.isSome_some]

/-- Hosts that validate together jump to each other only. -/
theorem jumps_of_validated {hosts : List HostRecord} (valid : RecordsV3.validateHosts P hosts = .ok ())
    {host : HostRecord} (member : host ∈ hosts) {jump : String} (jumps : jump ∈ host.payload.jump) :
    ∃ other ∈ hosts, other.id = jump := by
  rw [RecordsV3.validateHosts, Result.bind_eq_ok] at valid
  obtain ⟨index, ran, routes⟩ := valid
  have walked := Result.forEach_eq_ok.mp routes host member
  obtain ⟨route, walked, _⟩ := Result.bind_eq_ok.mp walked
  rw [RecordsV3.chainIds, RecordsV3.appendChain, Result.refuse_bind_eq_ok, Result.refuse_bind_eq_ok] at walked
  obtain ⟨_, _, walked⟩ := walked
  have known : (index.ids[jump]?).isSome = true := by
    cases list : host.payload.jump with
    | nil =>
      rw [list] at jumps
      cases jumps
    | cons first rest =>
      simp only [list] at walked
      obtain ⟨next, found, walked⟩ := Result.bind_eq_ok.mp walked
      obtain ⟨nested, _, walked⟩ := Result.bind_eq_ok.mp walked
      obtain ⟨out, walked, _⟩ := Result.bind_eq_ok.mp walked
      rw [list] at jumps
      obtain rfl | later := List.mem_cons.mp jumps
      · exact found_of_findJump found
      · obtain ⟨_, _, step⟩ := stepped walked later
        obtain ⟨_, found, _⟩ := Result.bind_eq_ok.mp step
        exact found_of_findJump found
  obtain before | named := indexed_id ran known
  · simp at before
  · exact named

section Checked
variable {kept effective : List HostRecord} {assigned : Assigning} {start final : Planning}
  {hosts : List (Assigned × HostPayload)} {groups : List (Assigned × GroupPayload)}

namespace PlanSteps

variable (steps : PlanSteps P state spaces draws now kept effective assigned start final hosts groups)
include steps

theorem planned_hosts : final.hosts = hosts.map (plannedHost state.deviceId now) := by
  rw [steps.made.plannedHosts, steps.starts.1, List.nil_append]

theorem planned_groups : final.groups = groups.map (plannedGroup state.deviceId now) := by
  rw [steps.made.plannedGroups, steps.starts.2.1, List.nil_append]

theorem apart : ∀ entry ∈ liveRows spaces, entry.2.record.id ∉ localIds state :=
  fun entry live => ((assign_only steps.assigns).2 entry live).1

theorem distinct : ((liveRows spaces).map (·.2.record.id)).Nodup := (assign_only steps.assigns).1

/-- The check of the plan took every copy. -/
theorem host_checked {copy : Assigned × HostPayload} (member : copy ∈ hosts) : ∃ before after,
    validatePlannedHost P (Prepared.made spaces final) before (plannedHost state.deviceId now copy) = .ok after := by
  have checked := steps.checked
  simp only [validatePlan, Result.bind_eq_ok] at checked
  obtain ⟨_, _, seen, ran, _⟩ := checked
  refine stepped ran ?_
  show _ ∈ final.hosts
  rw [steps.planned_hosts]
  exact List.mem_map_of_mem member

theorem group_checked {copy : Assigned × GroupPayload} (member : copy ∈ groups) : ∃ before after,
    validatePlannedGroup (Prepared.made spaces final) before (plannedGroup state.deviceId now copy) = .ok after := by
  have checked := steps.checked
  simp only [validatePlan, Result.bind_eq_ok] at checked
  obtain ⟨_, _, _, _, result, ran, _⟩ := checked
  refine stepped ran ?_
  show _ ∈ final.groups
  rw [steps.planned_groups]
  exact List.mem_map_of_mem member

end PlanSteps

namespace CleanLibrary

variable (leaving : CleanLibrary P state spaces draws library)
  (steps : PlanSteps P state spaces draws now kept effective assigned start final hosts groups)
include leaving steps

theorem assigned_ok : assigned.rows = assignedRows spaces draws ∧ Renames spaces draws assigned.remap := by
  obtain ⟨_, assigns, rows, renames⟩ := assignIds_ok leaving.fresh steps.apart steps.distinct
  rw [steps.assigns] at assigns
  cases assigns
  exact ⟨rows, renames⟩

theorem host_copy_live {copy : Assigned × HostPayload} (member : copy ∈ hosts) :
    (copy.1.spaceId, copy.1.source) ∈ liveRows spaces ∧ copy.1.source.record.kind ≠ .Group := by
  have inRows : copy.1 ∈ hosts.map Prod.fst := List.mem_map_of_mem member
  rw [steps.made.hostRows, (leaving.assigned_ok steps).1, List.mem_filter] at inRows
  exact ⟨assigned_live leaving.fresh.enough inRows.1, by simpa using inRows.2⟩

theorem group_copy_live {copy : Assigned × GroupPayload} (member : copy ∈ groups) :
    (copy.1.spaceId, copy.1.source) ∈ liveRows spaces ∧ copy.1.source.record.kind = .Group := by
  have inRows : copy.1 ∈ groups.map Prod.fst := List.mem_map_of_mem member
  rw [steps.made.groupRows, (leaving.assigned_ok steps).1, List.mem_filter] at inRows
  exact ⟨assigned_live leaving.fresh.enough inRows.1, by simpa using inRows.2⟩

theorem host_copy_of_live {entry : String × LocalRecord} (live : entry ∈ liveRows spaces)
    (kind : entry.2.record.kind ≠ .Group) : ∃ copy ∈ hosts, copy.1.spaceId = entry.1 ∧ copy.1.source = entry.2 := by
  obtain ⟨row, member, space, source⟩ := exists_assigned leaving.fresh.enough live
  have inRows : row ∈ hosts.map Prod.fst := by
    rw [steps.made.hostRows, (leaving.assigned_ok steps).1]
    exact List.mem_filter.mpr ⟨member, by simp [source, kind]⟩
  obtain ⟨copy, inHosts, rfl⟩ := List.mem_map.mp inRows
  exact ⟨copy, inHosts, space, source⟩

theorem group_copy_of_live {entry : String × LocalRecord} (live : entry ∈ liveRows spaces)
    (kind : entry.2.record.kind = .Group) : ∃ copy ∈ groups, copy.1.spaceId = entry.1 ∧ copy.1.source = entry.2 := by
  obtain ⟨row, member, space, source⟩ := exists_assigned leaving.fresh.enough live
  have inRows : row ∈ groups.map Prod.fst := by
    rw [steps.made.groupRows, (leaving.assigned_ok steps).1]
    exact List.mem_filter.mpr ⟨member, by simp [source, kind]⟩
  obtain ⟨copy, inGroups, rfl⟩ := List.mem_map.mp inRows
  exact ⟨copy, inGroups, space, source⟩

/-- The check of the plan maps the jumps of a host as the loop did. -/
theorem host_jumps_agree {copy : Assigned × HostPayload} (member : copy ∈ hosts) {found : HostRecord}
    (decodes : decodeHost P copy.1.source.record .Local = .ok (.Live found)) :
    ∀ jump ∈ found.payload.jump,
      remapped (Prepared.made spaces final).hostRemap jump = remapped assigned.remap jump := by
  obtain ⟨live, _⟩ := leaving.host_copy_live steps member
  obtain ⟨kind, _⟩ := decodeHost_live decodes
  obtain ⟨_, _, checked⟩ := steps.host_checked member
  simp only [validatePlannedHost, Result.refuse_bind_eq_ok] at checked
  obtain ⟨_, checked⟩ := checked
  simp only [Result.bind_eq_ok, orFail_eq_ok, orDeleted_eq_ok, orMissing_eq_ok, Option.filter_eq_some_iff] at checked
  obtain ⟨source, ⟨sourced, _⟩, _, decodesCopy, host, rfl, _, decodesSource, expected, rfl, checked⟩ := checked
  have here := leaving.source_live (show (Prepared.made spaces final).sourceSpaces = spaces from rfl) live
  rw [kind] at here
  simp only [plannedHost] at sourced
  rw [here] at sourced
  cases sourced
  rw [decodes] at decodesSource
  cases decodesSource
  obtain ⟨_, _, groupId, _, _, same, _⟩ := checked
  rw [Result.refuse_eq_ok, bne_eq_false_iff_eq] at same
  obtain ⟨_, _, _, _, read, _⟩ := decodeHost_live decodesCopy
  -- the copy reads back as it was written
  rw [show (plannedHost state.deviceId now copy).local.record.payload = copy.2.toJson from rfl,
    HostPayload.ofJson_toJson, Option.some.injEq] at read
  obtain ⟨found', decodes', jumps⟩ := steps.made.hostJumps copy member
  rw [decodes] at decodes'
  cases decodes'
  rw [← read] at same
  exact List.map_inj_left.mp ((congrArg HostPayload.jump same).symm.trans jumps)

theorem group_jumps_agree {copy : Assigned × GroupPayload} (member : copy ∈ groups) {found : GroupRecord}
    (decodes : decodeGroup copy.1.source.record .Local = .ok (.Live found)) :
    (∀ list ∈ found.payload.defaults.jump, ∀ jump ∈ list,
      remapped (Prepared.made spaces final).hostRemap jump = remapped assigned.remap jump) ∧
    ∀ parent ∈ found.payload.parentId, ((Prepared.made spaces final).groupRemap[parent]?).isSome = true := by
  obtain ⟨live, _⟩ := leaving.group_copy_live steps member
  obtain ⟨kind, _⟩ := decodeGroup_live decodes
  obtain ⟨_, _, checked⟩ := steps.group_checked member
  simp only [validatePlannedGroup, Result.refuse_bind_eq_ok] at checked
  obtain ⟨_, checked⟩ := checked
  simp only [Result.bind_eq_ok, orFail_eq_ok, orDeleted_eq_ok, orMissing_eq_ok] at checked
  obtain ⟨source, sourced, _, decodesSource, expected, rfl, _, decodesCopy, group, rfl, parentId, parented, _, _, _,
    same, _⟩ := checked
  have here := leaving.source_live (show (Prepared.made spaces final).sourceSpaces = spaces from rfl) live
  rw [kind] at here
  simp only [plannedGroup] at sourced
  rw [here] at sourced
  cases sourced
  rw [decodes] at decodesSource
  cases decodesSource
  constructor
  · intro list given jump inList
    rw [Result.refuse_eq_ok, Bool.or_eq_false_iff, Bool.or_eq_false_iff, Bool.or_eq_false_iff] at same
    have payload := bne_eq_false_iff_eq.mp same.1.1.2
    obtain ⟨_, _, _, _, read⟩ := decodeGroup_live decodesCopy
    rw [show (plannedGroup state.deviceId now copy).local.record.payload = copy.2.toJson from rfl,
      GroupPayload.ofJson_toJson, Option.some.injEq] at read
    obtain ⟨found', decodes', jumps⟩ := steps.made.groupJumps copy member
    rw [decodes] at decodes'
    cases decodes'
    rw [← read] at payload
    have lists := (congrArg (fun p : GroupPayload => p.defaults.jump) payload).symm.trans jumps
    simp only [remapGroupPayload, Option.mem_def.mp given, Option.map_some, Option.some.injEq] at lists
    exact List.map_inj_left.mp lists jump inList
  · intro parent above
    rw [Option.mem_def.mp above] at parented
    simp only [remapGroup, Result.bind_eq_ok, orMissing_eq_ok] at parented
    obtain ⟨new, found, _⟩ := parented
    rw [found, Option.isSome_some]

/-- The check knows the groups of the plan by their sources. -/
theorem group_of_remap {id : String} (known : ((Prepared.made spaces final).groupRemap[id]?).isSome = true) :
    ∃ entry ∈ liveRows spaces, entry.2.record.kind = .Group ∧ entry.2.record.id = id := by
  have written : (Prepared.made spaces final).groupRemap = (∅ : BTreeMap String).insertAll
      (groups.map fun copy => (copy.1.source.record.id, copy.1.id)) := by
    simp only [LeavePlan.groupRemap, Prepared.made, steps.planned_groups, BTreeMap.insertAll, List.foldl_map]
    rfl
  have inKeys : id ∈ (groups.map fun copy => (copy.1.source.record.id, copy.1.id)).map Prod.fst := by
    by_contra absent
    rw [written, BTreeMap.get?_insertAll_of_not_mem absent] at known
    simp at known
  rw [List.map_map] at inKeys
  obtain ⟨copy, member, rfl⟩ := List.mem_map.mp inKeys
  obtain ⟨live, kind⟩ := leaving.group_copy_live steps member
  exact ⟨_, live, kind, rfl⟩

/-- The check does not know the groups of the plan as hosts. -/
theorem hostRemap_group {entry : String × LocalRecord} (live : entry ∈ liveRows spaces)
    (kind : entry.2.record.kind = .Group) :
    remapped (Prepared.made spaces final).hostRemap entry.2.record.id = entry.2.record.id := by
  have written : (Prepared.made spaces final).hostRemap = (∅ : BTreeMap String).insertAll
      (hosts.map fun copy => (copy.1.source.record.id, copy.1.id)) := by
    simp only [LeavePlan.hostRemap, Prepared.made, steps.planned_hosts, BTreeMap.insertAll, List.foldl_map]
    rfl
  have absent : entry.2.record.id ∉ (hosts.map fun copy => (copy.1.source.record.id, copy.1.id)).map Prod.fst := by
    rw [List.map_map]
    intro inKeys
    obtain ⟨copy, member, same⟩ := List.mem_map.mp inKeys
    obtain ⟨live', isHost⟩ := leaving.host_copy_live steps member
    have equal := List.inj_on_of_nodup_map steps.distinct live live' same.symm
    rw [equal] at kind
    exact isHost kind
  rw [remapped, written, BTreeMap.get?_insertAll_of_not_mem absent]
  simp

/-- A jump that the loop and the check agree on is no group. -/
theorem no_group_jump {jump : String}
    (agree : remapped (Prepared.made spaces final).hostRemap jump = remapped assigned.remap jump) :
    ∀ other ∈ liveRows spaces, other.2.record.kind = .Group → other.2.record.id ≠ jump := by
  rintro other live kind rfl
  obtain ⟨row, member, _, source⟩ := exists_assigned leaving.fresh.enough live
  rw [leaving.hostRemap_group steps live kind, ← source, (leaving.assigned_ok steps).2.moved member] at agree
  refine leaving.live_not_drawn live ?_
  rw [← source, agree]
  exact assigned_drawn member

theorem jumps_kept : ∀ entry ∈ liveRows spaces, ∀ jump ∈ rowJumps entry.2, ∀ other ∈ liveRows spaces,
    other.2.record.kind = .Group → other.2.record.id ≠ jump := by
  intro entry live jump inJumps
  by_cases kind : entry.2.record.kind = .Group
  · obtain ⟨copy, member, _, source⟩ := leaving.group_copy_of_live steps live kind
    obtain ⟨found, decodes, _⟩ := steps.made.groupJumps copy member
    obtain ⟨_, _, _, _, read⟩ := decodeGroup_live decodes
    rw [source] at read
    rw [rowJumps, if_pos kind, read, Option.bind_some] at inJumps
    cases given : found.payload.defaults.jump with
    | none => simp [given] at inJumps
    | some list =>
      rw [given, Option.getD_some] at inJumps
      exact leaving.no_group_jump steps ((leaving.group_jumps_agree steps member decodes).1 list given jump inJumps)
  · obtain ⟨copy, member, _, source⟩ := leaving.host_copy_of_live steps live kind
    obtain ⟨found, decodes, _⟩ := steps.made.hostJumps copy member
    obtain ⟨_, _, _, _, read, _⟩ := decodeHost_live decodes
    rw [source] at read
    rw [rowJumps, if_neg kind, read, Option.map_some, Option.getD_some] at inJumps
    exact leaving.no_group_jump steps (leaving.host_jumps_agree steps member decodes jump inJumps)

theorem parents_kept : ∀ entry ∈ liveRows spaces, ∀ parent ∈ rowParent entry.2, ∃ other ∈ liveRows spaces,
    other.2.record.kind = .Group ∧ other.2.record.id = parent := by
  intro entry live parent above
  by_cases kind : entry.2.record.kind = .Group
  · obtain ⟨copy, member, _, source⟩ := leaving.group_copy_of_live steps live kind
    obtain ⟨found, decodes, _⟩ := steps.made.groupJumps copy member
    obtain ⟨_, _, _, _, read⟩ := decodeGroup_live decodes
    rw [source] at read
    rw [rowParent, if_pos kind, read, Option.bind_some] at above
    exact leaving.group_of_remap steps ((leaving.group_jumps_agree steps member decodes).2 parent above)
  · rw [rowParent, if_neg kind] at above
    cases above

/-! ## Jumps of this device -/

/-- A group of this device is found among the planned ones as before. -/
theorem candidate_here {id : String} {found : GroupRecord}
    (read : group (sourceState state spaces) .Local id = .ok found) :
    group (candidateState state final.groups) .Local id = .ok found := by
  obtain ⟨_, row, held, _⟩ := group_eq_ok read
  have written : (candidateState state final.groups).local.groups = state.local.groups.insertAll
      (groups.map fun copy => (recordKey .Group copy.1.id, (plannedGroup state.deviceId now copy).local)) := by
    simp only [candidateState, steps.planned_groups, BTreeMap.insertAll, List.foldl_map]
    rfl
  rw [← read]
  apply group_local_congr
  rw [written]
  apply BTreeMap.get?_insertAll_of_not_mem
  rw [List.map_map]
  intro inKeys
  obtain ⟨copy, member, same⟩ := List.mem_map.mp inKeys
  have inRows : copy.1 ∈ groups.map Prod.fst := List.mem_map_of_mem member
  rw [steps.made.groupRows, (leaving.assigned_ok steps).1, List.mem_filter] at inRows
  have free := leaving.fresh.unkeyed _ (assigned_drawn inRows.1)
  have key : recordKey .Group copy.1.id = recordKey .Group id := same
  rw [key] at free
  have here : state.local.groups[recordKey .Group id]? = some row := held
  rw [free] at here
  cases here

/-- The plan resolves a host of this device to the settings it is shown with. -/
theorem effective_here {view : HostView} (member : view ∈ library.hosts) (placed : view.host.scope = .Local) :
    view.host ∈ final.existing ∧
      effectiveOf P (candidateState state final.groups) view.host = view.effectivePayload := by
  obtain ⟨row, shown⟩ := shown_of_mem leaving.listed member
  obtain ⟨kept, ran, _, mem⟩ := localHosts_spec (leaving.readable.hosts .Local List.mem_cons_self)
    (localHosts_only steps.readLocals)
  rw [show localHosts P (sourceState state spaces) = localHosts P state from rfl, steps.readLocals] at ran
  cases ran
  have held := shown.holds.held
  have decodes := shown.holds.decodes
  rw [placed] at held decodes
  constructor
  · rw [steps.made.existing, steps.starts.2.2]
    exact List.mem_append_left _ ((mem _).mpr ⟨row, held, decodes⟩)
  · obtain ⟨effective, resolved, payload⟩ := leaving.resolved member
    obtain ⟨path, walked, rfl, valid⟩ := resolveEffective_eq_ok.mp resolved
    rw [placed] at walked
    have walked' := ancestorPath_kept (fun _ _ read => leaving.candidate_here steps read) walked
    rw [effectiveOf_eq (resolveEffective_eq_ok.mpr ⟨path, placed ▸ walked', rfl, valid⟩), payload]

/-- A planned host is one of this device's or has a new id. -/
theorem existing_id {host : HostRecord} (member : host ∈ final.existing) :
    host.id ∈ localIds state ∨ host.id ∈ draws := by
  rw [steps.made.existing, steps.starts.2.2] at member
  obtain here | copied := List.mem_append.mp member
  · obtain ⟨kept, ran, _, mem⟩ := localHosts_spec (leaving.readable.hosts .Local List.mem_cons_self)
      (localHosts_only steps.readLocals)
    rw [show localHosts P (sourceState state spaces) = localHosts P state from rfl, steps.readLocals] at ran
    cases ran
    obtain ⟨row, held, decodes⟩ := (mem _).mp here
    have placed : host.scope = .Local := (decodeHost_live decodes).2.2.2.1
    have holds : Holds P (sourceState state spaces) host row :=
      ⟨placed ▸ List.mem_cons_self, by rw [placed]; exact held, placed ▸ decodes⟩
    exact .inl (localIds_of_holds holds placed)
  · obtain ⟨copy, inCopies, rfl⟩ := List.mem_map.mp copied
    have inRows : copy.1 ∈ hosts.map Prod.fst := List.mem_map_of_mem inCopies
    rw [steps.made.hostRows, (leaving.assigned_ok steps).1, List.mem_filter] at inRows
    exact .inr (assigned_drawn inRows.1)

theorem local_jumps_kept : ∀ view ∈ library.hosts, view.host.scope = .Local → ∀ jump ∈ view.effectivePayload.jump,
    ∃ other ∈ library.hosts, other.host.scope = .Local ∧ other.host.id = jump := by
  intro view member placed jump inJumps
  obtain ⟨other, inHosts, rfl⟩ := leaving.jump_known member inJumps
  refine ⟨other, inHosts, ?_, rfl⟩
  cases shared : other.host.scope with
  | «Local» => rfl
  | Space spaceId =>
    exfalso
    obtain ⟨inExisting, settings⟩ := leaving.effective_here steps member placed
    have ran : (final.existing.mapM fun host => do
        let effective ← resolveEffective P (candidateState state final.groups) host
        return { host with payload := effective.payload }) = .ok effective := steps.resolves
    obtain ⟨shown, inEffective, resolved⟩ : ∃ shown ∈ effective, shown.payload = view.effectivePayload := by
      obtain ⟨resolvedHost, resolves⟩ := Result.isOk_iff.mp
        (Result.mapM_isOk.mp (Result.isOk_iff.mpr ⟨_, ran⟩) _ inExisting)
      refine ⟨resolvedHost, (Result.mem_mapM ran).mpr ⟨_, inExisting, resolves⟩, ?_⟩
      obtain ⟨inherited, found, same⟩ := Result.bind_eq_ok.mp resolves
      cases same
      rw [← settings, effectiveOf_eq found]
    obtain ⟨target, inTargets, named⟩ := jumps_of_validated steps.routes inEffective (resolved ▸ inJumps)
    obtain ⟨planned, inPlanned, resolves⟩ := (Result.mem_mapM ran).mp inTargets
    obtain ⟨inherited, _, same⟩ := Result.bind_eq_ok.mp resolves
    cases same
    obtain ⟨row, shownOther⟩ := shown_of_mem leaving.listed inHosts
    obtain ⟨live, rowId, _⟩ := live_of_holds shownOther.holds shared
    rw [← named] at rowId
    obtain here | drawn := leaving.existing_id steps inPlanned
    · exact steps.apart _ live (rowId ▸ here)
    · exact leaving.live_not_drawn live (rowId ▸ drawn)

theorem leavable : Leavable state spaces library.hosts where
  hostsOnly := localHosts_only steps.readLocals
  apart := steps.apart
  distinct := steps.distinct
  parents := leaving.parents_kept steps
  jumps := leaving.jumps_kept steps
  localJumps := leaving.local_jumps_kept steps

end CleanLibrary

end Checked

/-- A plan exists for the libraries a device can leave with, and for no others. -/
theorem CleanLibrary.plan_isOk_iff (leaving : CleanLibrary P state spaces draws library) (now : Nat) :
    (plan P state spaces draws now).isOk = true ↔ Leavable state spaces library.hosts := by
  constructor
  · intro ran
    obtain ⟨planned, ran⟩ := Result.isOk_iff.mp ran
    obtain ⟨kept, effective, assigned, start, final, hosts, groups, steps⟩ := plan_steps ran
    exact leaving.leavable steps
  · intro leavable
    obtain ⟨locals, used, assigned, final, hosts, groups, prepared⟩ :=
      Leaving.prepared { leaving with leavable } now
    exact Result.isOk_iff.mpr ⟨_, prepared.plan_ok⟩

/-- A device leaves with its whole library or is told what to review: the plan exists exactly for the libraries
it can leave with, and activating the plan keeps every host and group under the new ids. -/
theorem leave_keeps_library (leaving : CleanLibrary P state spaces draws library) (now : Nat)
    {account : AccountState} (joined : state.account = some account) {op : PendingAccountOperation}
    (chain : op.preparedAccount.chainId = account.chainId) :
    ((plan P state spaces draws now).isOk = true ↔ Leavable state spaces library.hosts) ∧
      ∀ planned, plan P state spaces draws now = .ok planned → ∃ next rename,
        activate P planned op { state with pendingAccount := some op } = .ok next ∧
          KeptLibrary P state spaces draws library rename next := by
  refine ⟨leaving.plan_isOk_iff now, fun planned ran => ?_⟩
  have leavable := (leaving.plan_isOk_iff now).mp (Result.isOk_iff.mpr ⟨planned, ran⟩)
  obtain ⟨locals, used, assigned, final, hosts, groups, prepared⟩ := Leaving.prepared { leaving with leavable } now
  rw [prepared.plan_ok] at ran
  cases ran
  exact ⟨_, _, prepared.activate_ok joined chain, prepared.keeps_library op⟩

namespace Sample
open Sshelter.Sync.Sample

/-- A host of this device with the alias of the shared host. -/
def ownHost : LocalRecord :=
  { record := { host 1 3 device with id := "0123456789abcdef" }, seq := 0, dirty := false }

/-- The sample device, with a shared host in a shared group and a host of its own. -/
def leaver : SyncStateV3 :=
  { Sync.Sample.library { space with
      records := ((∅ : BTreeMap LocalRecord).insert (recordKey .Host hostId) memberHost).insert
        (recordKey .Group groupId) groupRow } with
    version := NAVIGATION_STATE_VERSION
    «local» :=
      { LocalState.default with
        groupOrder := [groupId]
        hosts := (∅ : BTreeMap LocalRecord).insert (recordKey .Host ownHost.record.id) ownHost } }

def leaverDraws : List String := ["1111222233334444", "5555666677778888"]

def leaveOperation : PendingAccountOperation :=
  { id := device, deviceName := "laptop", kind := .LeaveAccount, phase := .Prepared, migrationGate := none
    relayUrl := "", stagedCodeAccount := none, preparedAccount := account, spaceId := none, preparedSpace := none
    rotation := none }

/-- The library the sample device sees. -/
def leaverLibrary : RepositorySnapshot :=
  match snapshot memberTable leaver with
  | .ok library => library
  | .error _ => { hosts := [], keys := [], groups := [] }

theorem leaver_clean : CleanLibrary memberTable leaver leaver.spaces leaverDraws leaverLibrary where
  opened := by decide +kernel
  read := by decide +kernel
  selected := by
    intro id other found
    have inside : ∀ entry ∈ leaver.spaces.toList, entry.2.selected = true ∧ entry.2.missing = false := by
      decide +kernel
    exact inside (id, other) (BTreeMap.mem_toList.mpr found)
  clean := by
    have checked : ∀ view ∈ leaverLibrary.hosts, view.groupError = none ∧
        aliasConflict leaverLibrary.hosts view.host = false ∧
        (routeIndices leaverLibrary.hosts view.host.id).isOk = true := by decide +kernel
    exact fun view member => ⟨(checked view member).1, (checked view member).2.1, (checked view member).2.2⟩
  fresh :=
    { enough := by decide +kernel
      hex := by decide +kernel
      distinct := by decide +kernel
      unused := by decide +kernel
      unkeyed := by decide +kernel
      unmentioned := by decide +kernel
      unnamed := by decide +kernel }

end Sample

theorem leaver_keeps_library : ∃ next rename,
    KeptLibrary Sample.memberTable Sample.leaver Sample.leaver.spaces Sample.leaverDraws Sample.leaverLibrary
      rename next := by
  have planned : (plan Sample.memberTable Sample.leaver Sample.leaver.spaces Sample.leaverDraws 50).isOk = true := by
    decide +kernel
  obtain ⟨made, ran⟩ := Result.isOk_iff.mp planned
  have joined : Sample.leaver.account = some Sample.account := rfl
  have chain : Sample.leaveOperation.preparedAccount.chainId = Sample.account.chainId := rfl
  obtain ⟨next, rename, _, kept⟩ := (leave_keeps_library Sample.leaver_clean 50 joined chain).2 made ran
  exact ⟨next, rename, kept⟩

end Sshelter.Sync.RecordLeave
