import Sshelter.Verified.LeaveCheck

/-! # Leaving keeps the library

The activation of a plan finds the new ids free and leaves the device with a library in which
every host of the old one has its counterpart: the same settings and the same route under the
new ids.
-/

namespace Sshelter.Sync.RecordLeave

variable {P : Primitives} {state : SyncStateV3} {spaces : BTreeMap SpaceStateV3} {draws : List String}
  {library : RepositorySnapshot} {now : Nat} {locals : List HostRecord}
  {used : List (Option String × String)} {assigned : Assigning} {final : Planning}
  {hosts : List (Assigned × HostPayload)} {groups : List (Assigned × GroupPayload)}

/-! ## New rows -/

/-- A loop that writes rows under new keys. -/
theorem place_run {α β : Type} {step : BTreeMap α → β → Leave (BTreeMap α)} {entry : β → String × α}
    (each : ∀ (rows : BTreeMap α) item, rows[(entry item).1]? = none →
      step rows item = .ok (rows.insert (entry item).1 (entry item).2))
    {items : List β} {rows : BTreeMap α} (distinct : ((items.map entry).map Prod.fst).Nodup)
    (free : ∀ item ∈ items, rows[(entry item).1]? = none) :
    items.foldlM step rows = .ok (rows.insertAll (items.map entry)) := by
  induction items generalizing rows with
  | nil => rfl
  | cons item rest ih =>
    rw [List.map_cons, List.map_cons, List.nodup_cons] at distinct
    rw [List.foldlM_cons, each rows item (free item List.mem_cons_self), Result.ok_bind]
    refine ih distinct.2 ?_
    intro other member
    have ne : (entry item).1 ≠ (entry other).1 := by
      intro same
      apply distinct.1
      rw [List.map_map, same]
      exact List.mem_map_of_mem (f := Prod.fst ∘ entry) member
    rw [BTreeMap.get?_insert_ne _ _ ne]
    exact free other (List.mem_cons_of_mem _ member)

def hostEntry (deviceId : String) (now : Nat) (copy : Assigned × HostPayload) : String × LocalRecord :=
  (recordKey .Host copy.1.id, (plannedHost deviceId now copy).local)

def groupEntry (deviceId : String) (now : Nat) (copy : Assigned × GroupPayload) : String × LocalRecord :=
  (recordKey .Group copy.1.id, (plannedGroup deviceId now copy).local)

/-- The state after the rows of the plan are written. -/
def filledState (state : SyncStateV3) (now : Nat) (hosts : List (Assigned × HostPayload))
    (groups : List (Assigned × GroupPayload)) : SyncStateV3 :=
  { state with
    «local» :=
      { state.local with
        hosts := state.local.hosts.insertAll (hosts.map (hostEntry state.deviceId now))
        groups := state.local.groups.insertAll (groups.map (groupEntry state.deviceId now)) } }

namespace Prepared

variable (prepared : Prepared P state spaces draws now library locals used assigned final hosts groups)
include prepared

theorem distinct_host_keys : ((hosts.map (hostEntry state.deviceId now)).map Prod.fst).Nodup := by
  have ids := prepared.distinct_existing
  rw [prepared.copied.existing, List.map_append, List.nodup_append, List.map_map] at ids
  have keys := ids.2.1.map (f := recordKey .Host) (fun a b same => (recordKey_injective same).2)
  rwa [List.map_map] at keys ⊢

/-- No row of this device has a new id. -/
theorem host_key_free {id : String} (drawn : id ∈ draws) : state.local.hosts[recordKey .Host id]? = none := by
  rw [Option.eq_none_iff_forall_ne_some]
  intro row held
  have cached := (prepared.leaving.readable.hosts .Local List.mem_cons_self _ _ held).cached
  refine prepared.leaving.local_not_drawn ?_ drawn
  rw [(recordKey_injective cached.key).2]
  exact List.mem_map_of_mem (f := fun row : LocalRecord => row.record.id)
    (List.mem_append_left _ (BTreeMap.mem_values.mpr ⟨_, held⟩))

theorem hosts_placed : final.hosts.foldlM placeHost state.local.hosts =
    .ok (state.local.hosts.insertAll (hosts.map (hostEntry state.deviceId now))) := by
  rw [prepared.copied.plannedHosts, List.foldlM_map]
  refine place_run ?_ prepared.distinct_host_keys ?_
  · intro rows copy free
    have open_ : rows.contains (recordKey .Host copy.1.id) = false := by
      rw [BTreeMap.contains_eq]
      exact congrArg Option.isSome free
    simp only [placeHost, plannedHost, open_, Result.refuse_false, Result.ok_bind]
    rfl
  · intro copy member
    exact prepared.host_key_free (assigned_drawn (prepared.row_of_host_copy member).1)

theorem groups_placed : final.groups.foldlM placeGroup state.local.groups =
    .ok (state.local.groups.insertAll (groups.map (groupEntry state.deviceId now))) := by
  rw [prepared.copied.plannedGroups, List.foldlM_map]
  refine place_run ?_ prepared.distinct_group_keys ?_
  · intro rows copy free
    have open_ : rows.contains (recordKey .Group copy.1.id) = false := by
      rw [BTreeMap.contains_eq]
      exact congrArg Option.isSome free
    simp only [placeGroup, plannedGroup, open_, Result.refuse_false, Result.ok_bind]
    rfl
  · intro copy member
    exact prepared.leaving.fresh.unkeyed _ (assigned_drawn (prepared.row_of_group_copy member).1)

/-- A host row afterwards is a row from before or a copy. -/
theorem filled_host {key : String} {row : LocalRecord}
    (held : (filledState state now hosts groups).local.hosts[key]? = some row) :
    state.local.hosts[key]? = some row ∨ ∃ copy ∈ hosts, key = recordKey .Host copy.1.id ∧
      row = (plannedHost state.deviceId now copy).local := by
  by_cases new : key ∈ (hosts.map (hostEntry state.deviceId now)).map Prod.fst
  · obtain ⟨⟨_, value⟩, inEntries, rfl⟩ := List.mem_map.mp new
    have written := BTreeMap.get?_insertAll_of_mem (m := state.local.hosts) prepared.distinct_host_keys inEntries
    obtain ⟨copy, member, same⟩ := List.mem_map.mp inEntries
    refine .inr ⟨copy, member, ?_, ?_⟩
    · exact (congrArg Prod.fst same).symm
    · have value_eq := Option.some.inj (written.symm.trans held)
      rw [← value_eq]
      exact (congrArg Prod.snd same).symm
  · exact .inl ((BTreeMap.get?_insertAll_of_not_mem new).symm.trans held)

theorem filled_host_copy {copy : Assigned × HostPayload} (member : copy ∈ hosts) :
    (filledState state now hosts groups).local.hosts[recordKey .Host copy.1.id]? =
      some (plannedHost state.deviceId now copy).local :=
  BTreeMap.get?_insertAll_of_mem prepared.distinct_host_keys (List.mem_map.mpr ⟨copy, member, rfl⟩)

theorem filled_host_kept {key : String} {row : LocalRecord} (held : state.local.hosts[key]? = some row) :
    (filledState state now hosts groups).local.hosts[key]? = some row := by
  rw [← held]
  apply BTreeMap.get?_insertAll_of_not_mem
  rw [List.map_map]
  intro new
  obtain ⟨copy, member, rfl⟩ := List.mem_map.mp new
  have free := prepared.host_key_free (assigned_drawn (prepared.row_of_host_copy member).1)
  rw [Function.comp_apply, hostEntry] at held
  rw [held] at free
  cases free

/-- A group row afterwards is a row from before or a copy. -/
theorem filled_group {key : String} {row : LocalRecord}
    (held : (filledState state now hosts groups).local.groups[key]? = some row) :
    state.local.groups[key]? = some row ∨ ∃ copy ∈ groups, key = recordKey .Group copy.1.id ∧
      row = (plannedGroup state.deviceId now copy).local := by
  by_cases new : key ∈ (groups.map (groupEntry state.deviceId now)).map Prod.fst
  · obtain ⟨⟨_, value⟩, inEntries, rfl⟩ := List.mem_map.mp new
    have written := BTreeMap.get?_insertAll_of_mem (m := state.local.groups) prepared.distinct_group_keys inEntries
    obtain ⟨copy, member, same⟩ := List.mem_map.mp inEntries
    refine .inr ⟨copy, member, ?_, ?_⟩
    · exact (congrArg Prod.fst same).symm
    · have value_eq := Option.some.inj (written.symm.trans held)
      rw [← value_eq]
      exact (congrArg Prod.snd same).symm
  · exact .inl ((BTreeMap.get?_insertAll_of_not_mem new).symm.trans held)

theorem filled_group_copy {copy : Assigned × GroupPayload} (member : copy ∈ groups) :
    (filledState state now hosts groups).local.groups[recordKey .Group copy.1.id]? =
      some (plannedGroup state.deviceId now copy).local :=
  BTreeMap.get?_insertAll_of_mem prepared.distinct_group_keys (List.mem_map.mpr ⟨copy, member, rfl⟩)

theorem filled_group_kept {key : String} {row : LocalRecord} (held : state.local.groups[key]? = some row) :
    (filledState state now hosts groups).local.groups[key]? = some row := by
  rw [← held]
  apply BTreeMap.get?_insertAll_of_not_mem
  rw [List.map_map]
  intro new
  obtain ⟨copy, member, rfl⟩ := List.mem_map.mp new
  have free := prepared.leaving.fresh.unkeyed _ (assigned_drawn (prepared.row_of_group_copy member).1)
  rw [Function.comp_apply, groupEntry] at held
  rw [held] at free
  cases free

/-! ## The hosts afterwards -/

/-- A state with the rows of the plan. -/
theorem hostRow_readable {key : String} {row : LocalRecord}
    (held : (filledState state now hosts groups).local.hosts[key]? = some row) :
    HostRowReadable P .Local key row.record := by
  obtain before | ⟨copy, member, rfl, rfl⟩ := prepared.filled_host held
  · exact prepared.leaving.readable.hosts .Local List.mem_cons_self key row before
  · obtain ⟨_, kind⟩ := prepared.valid_host_copy member
    refine ⟨⟨?_, ?_, ?_, prepared.isSlot⟩, fun _ => ?_⟩
    · simp [plannedHost, copiedRow, kind, RecordKind.isSecret]
    · simp [plannedHost, copiedRow, kind]
    · simp [plannedHost, copiedRow]
    · exact Result.isOk_iff.mpr ⟨_, prepared.decodes_host_copy member⟩

theorem groupRow_readable {key : String} {row : LocalRecord}
    (held : (filledState state now hosts groups).local.groups[key]? = some row) :
    GroupRowReadable .Local key row.record := by
  obtain before | ⟨copy, member, rfl, rfl⟩ := prepared.filled_group held
  · exact prepared.leaving.readable.groups .Local List.mem_cons_self key row before
  · obtain ⟨_, kind⟩ := prepared.row_of_group_copy member
    refine ⟨fun _ => ⟨?_, ?_, ?_, prepared.isSlot⟩, fun _ => ?_⟩
    · simp [plannedGroup, copiedRow, kind, RecordKind.isSecret]
    · simp [plannedGroup, copiedRow, kind]
    · simp [plannedGroup, copiedRow]
    · exact Result.isOk_iff.mpr ⟨_, prepared.decodes_group_copy member⟩

/-- The live hosts of this device are the hosts of the plan. -/
theorem filled_hosts : ∃ kept, localHosts P (filledState state now hosts groups) = .ok kept ∧
    kept.Perm final.existing ∧ ∀ host, host ∈ final.existing ↔
      ∃ row, (filledState state now hosts groups).local.hosts[recordKey .Host host.id]? = some row ∧
        decodeHost P row.record .Local = .ok (.Live host) := by
  have only : ∀ row ∈ (filledState state now hosts groups).local.hosts.values, row.record.deleted = false →
      row.record.kind ≠ .Group := by
    intro row member live
    obtain ⟨key, held⟩ := BTreeMap.mem_values.mp member
    obtain before | ⟨copy, inHosts, rfl, rfl⟩ := prepared.filled_host held
    · exact prepared.leaving.leavable.hostsOnly row (BTreeMap.mem_values.mpr ⟨key, before⟩) live
    · simp [plannedHost, copiedRow, (prepared.valid_host_copy inHosts).2]
  obtain ⟨kept, ran, distinct, mem⟩ := localHosts_spec (fun _ _ => prepared.hostRow_readable) only
  have mem_iff : ∀ host, host ∈ final.existing ↔
      ∃ row, (filledState state now hosts groups).local.hosts[recordKey .Host host.id]? = some row ∧
        decodeHost P row.record .Local = .ok (.Live host) := by
    intro host
    rw [prepared.copied.existing, List.mem_append]
    constructor
    · -- a host of this device is kept, and a copied one was written
      rintro (here | shared)
      · obtain ⟨placed, row, holds⟩ := (prepared.onDevice host).mp here
        have held := holds.held
        have decodes := holds.decodes
        rw [placed] at held decodes
        exact ⟨row, prepared.filled_host_kept held, decodes⟩
      · obtain ⟨copy, member, rfl⟩ := List.mem_map.mp shared
        exact ⟨_, prepared.filled_host_copy member, prepared.decodes_host_copy member⟩
    · rintro ⟨row, held, decodes⟩
      obtain before | ⟨copy, member, _, rfl⟩ := prepared.filled_host held
      · have placed : host.scope = .Local := (decodeHost_live decodes).2.2.2.1
        refine .inl ((prepared.onDevice host).mpr ⟨placed, row, ?_, ?_, ?_⟩)
        · rw [placed]
          exact List.mem_cons_self
        · rw [placed]
          exact before
        · rw [placed]
          exact decodes
      · rw [prepared.decodes_host_copy member] at decodes
        cases decodes
        exact .inr (List.mem_map_of_mem member)
  refine ⟨kept, ran, ?_, mem_iff⟩
  rw [List.perm_ext_iff_of_nodup (distinct.of_map _) (prepared.distinct_existing.of_map _)]
  exact fun host => (mem host).trans (mem_iff host).symm

/-- With the rows of the plan in place every host of this device resolves as it was planned. -/
theorem resolve_filled {next : SyncStateV3}
    (same : next.local.groups = (filledState state now hosts groups).local.groups) {host : HostRecord}
    (placed : host.scope = .Local) :
    resolveEffective P next host = resolveEffective P (candidateState state final.groups) host := by
  apply resolveEffective_congr
  intro id
  rw [placed]
  apply group_local_congr
  rw [same, prepared.candidate_groups]
  rfl

end Prepared

end Sshelter.Sync.RecordLeave
