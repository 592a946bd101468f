import Sshelter.Verified.IncludedLibrary

/-! # The writes made without asking

Two writes of a local edit ask no authority: the row that `move_host` puts into its destination,
and the pins that `finish` clears after a group edit.  Which pins these are can be told before the
edit: those of the hosts that the library shows on another port once the edited group stands in for
the one there was.  A deletion clears none.
-/

namespace Sshelter.Sync

variable {P : Primitives} {state next candidate : SyncStateV3} {id : String} {now : Nat}

/-- The groups of a scope, one of them as edited. -/
def groupsWith (state : SyncStateV3) (edited : GroupRecord) (scope : HostScope) (id : String) : Option GroupRecord :=
  if scope = edited.scope ∧ id = edited.id then some edited else groupsOf state scope id

/-- No pinned host that the edited group puts on another port is shadowed. -/
def PortsSpared (P : Primitives) (state : SyncStateV3) (edited : GroupRecord) : Prop :=
  ∀ views, listHosts P state = .ok views → ∀ view ∈ views, view.host.payload.hostKey.isSome = true →
    (walkEffective P (groupsWith state edited view.host.scope) view.host).port ≠ view.effectivePayload.port →
    FreeIn state view.host.scope .Host view.host.id

/-! ## Ports before and after -/

theorem portChanged_iff {old : List HostView} (listed : listHosts P state = .ok old) {view : HostView}
    {row : LocalRecord} (holds : Holds P state view.host row) : portChanged old view = true ↔
      view.host.payload.hostKey.isSome = true ∧ (effectiveOf P state view.host).port ≠ view.effectivePayload.port := by
  obtain ⟨other, _, found, same, shown⟩ := find_shown listed holds rfl rfl
  rw [portChanged, found, Option.any_some, Bool.and_eq_true, bne_iff_ne, shown.effective, same]

/-- The records of a group edit before its pins are cleared: one group is written. -/
structure WritesGroup (state candidate : SyncStateV3) (edited : GroupRecord) : Prop extends SameHosts state candidate where
  groups : ∀ scope ∈ readableScopes state, ∀ id,
    (groupsOf candidate scope id).map (·.payload) = (groupsWith state edited scope id).map (·.payload)

theorem WritesGroup.effective {edited : GroupRecord} (writes : WritesGroup state candidate edited) {host : HostRecord}
    (readable : host.scope ∈ readableScopes state) :
    effectiveOf P candidate host = walkEffective P (groupsWith state edited host.scope) host := by
  rw [effectiveOf_eq_walk]
  exact walkEffective_settings (writes.groups host.scope readable) host

theorem WritesGroup.pinsSpared_iff {edited : GroupRecord} (writes : WritesGroup state candidate edited)
    {old new : List HostView} (listed : listHosts P state = .ok old) (listed' : listHosts P candidate = .ok new) :
    PinsSpared P state candidate ↔ PortsSpared P state edited := by
  constructor
  · intro spared views listed₁ view member pinned port
    rw [listed] at listed₁
    cases listed₁
    obtain ⟨row, shown⟩ := shown_of_mem listed member
    have there : Holds P candidate view.host row := by
      refine ⟨writes.readable ▸ shown.holds.scope, ?_, shown.holds.decodes⟩
      rw [writes.hosts]
      exact shown.holds.held
    obtain ⟨view', member', same, shown'⟩ := exists_view listed' there
    rw [← same]
    refine spared old new listed listed' view' member' ((portChanged_iff listed (same ▸ shown.holds)).mpr ?_)
    rw [same, shown'.effective, same, writes.effective shown.holds.scope, ← shown.effective]
    exact ⟨pinned, port.symm⟩
  · intro spared views new' listed₁ listed₂ view member changed
    rw [listed] at listed₁
    rw [listed'] at listed₂
    cases listed₁
    cases listed₂
    obtain ⟨row, shown⟩ := shown_of_mem listed' member
    have before := writes.toSameHosts.holds shown.holds
    obtain ⟨pinned, port⟩ := (portChanged_iff listed before).mp changed
    obtain ⟨view', member', same, shown'⟩ := exists_view listed before
    rw [← same]
    refine spared old listed view' member' (same ▸ pinned) ?_
    rw [shown'.effective, same, ← writes.effective before.scope, ← shown.effective]
    exact port.symm

/-! ## The group that is written -/

/-- In a scope whose groups are accepted every live group is found. -/
theorem group_of_validated {scope : HostScope} {row : LocalRecord} (readable : scope ∈ readableScopes state)
    (valid : validateGroups state scope = .ok ()) (rows : Readable P state)
    (held : (state.groupRows scope)[recordKey .Group id]? = some row) (kind : row.record.kind = .Group)
    (live : row.record.deleted = false) : ∃ found, group state scope id = .ok found := by
  obtain ⟨found, decodes⟩ := rows.liveGroup readable held kind live
  obtain ⟨groups, listed, checked⟩ := Result.bind_eq_ok.mp valid
  obtain ⟨named, placed, view, member, rfl⟩ := listGroups_complete listed ⟨readable, row, held, decodes⟩
  have path := (validateSiblings_isOk.mp checked).1 view (List.mem_filter.mpr ⟨member, by simpa using placed⟩)
  rw [named] at path
  exact group_of_path path

/-- A state that differs by one group row shows that group and the others. -/
theorem writesGroup_of_row {before : SyncStateV3} {edited : GroupRecord} {row : LocalRecord}
    (same : SameHosts state before)
    (groups : ∀ scope id, (before.groupRows scope)[recordKey .Group id]? = (state.groupRows scope)[recordKey .Group id]?)
    (readable : edited.scope ∈ readableScopes state)
    (candidate_eq : candidate = before.setGroupRow edited.scope (recordKey .Group edited.id) row)
    (kind : row.record.kind = .Group) (live : row.record.deleted = false)
    (payload : row.record.payload = edited.payload.toJson)
    (valid : validateGroups candidate edited.scope = .ok ()) (rows : Readable P candidate) :
    WritesGroup state candidate edited := by
  subst candidate_eq
  have hosts := same.trans
    (show SameHosts before (before.setGroupRow edited.scope (recordKey .Group edited.id) row) from .setGroupRow)
  refine ⟨hosts, fun scope inScopes id => ?_⟩
  rw [groupsWith]
  split
  · next here =>
    obtain ⟨rfl, rfl⟩ := here
    have held : ((before.setGroupRow edited.scope (recordKey .Group edited.id) row).groupRows
        edited.scope)[recordKey .Group edited.id]? = some row := groupRows_setGroupRow_self (same.readable ▸ readable)
    obtain ⟨found, read⟩ := group_of_validated (hosts.readable ▸ readable) valid rows held kind live
    have decoded := (group_payload read held).2
    rw [payload, GroupPayload.ofJson_toJson] at decoded
    rw [groupsOf_eq_some.mpr read]
    exact congrArg some (Option.some.inj decoded).symm
  · next elsewhere =>
    rw [groupsOf, groupsOf, hosts.toSameScopes.group inScopes]
    rw [groupRows_setGroupRow_ne elsewhere, groups]

theorem createdGroup_writes {scope : HostScope} {payload : GroupPayload} {confirmed : Bool}
    (created : createdGroup state id scope payload confirmed now = .ok candidate)
    (valid : validateGroups candidate scope = .ok ()) (rows : Readable P candidate) :
    WritesGroup state candidate ⟨id, scope, trimName payload⟩ := by
  rw [createdGroup, Result.check_eq_ok, Result.check_eq_ok, Result.check_eq_ok] at created
  obtain ⟨writable, _, _, created⟩ := created
  obtain ⟨upgraded, promoted, created⟩ := Result.bind_eq_ok.mp created
  obtain ⟨record, ordered, created⟩ := Result.bind_eq_ok.mp created
  obtain ⟨_, _, _, live, content, _⟩ := orderedRecord_spec ordered
  have same := promote_records promoted
  refine writesGroup_of_row ((promote_sections promoted).1) (fun scope id => ?_) (readable_of_ensureScope writable)
    (Except.ok.inj created).symm rfl live content valid rows
  cases scope <;> simp only [SyncStateV3.groupRows, SyncStateV3.spaceRecords, same.spaces, same.local]

/-- The group that an edit is about, as it is. -/
theorem checkedGroup_cases {expected : RecordRevision} {view : GroupView}
    (checked : checkedGroup state id expected = .ok view) : ∃ groups, listGroups state = .ok groups ∧
      (∀ other, other ∈ groups ∧ other.group.id = id ↔ other = view) ∧ view.group.scope ∈ readableScopes state := by
  obtain ⟨groups, listed, checked⟩ := Result.bind_eq_ok.mp checked
  split at checked
  · cases checked
  · rename_i found
    rw [Result.check_eq_ok, Result.check_eq_ok] at checked
    obtain ⟨current, read, same⟩ := Result.bind_eq_ok.mp checked.2.2
    cases same
    refine ⟨groups, listed, fun other => ?_, (group_eq_ok read).1⟩
    have member : other ∈ groups.filter (fun view => view.group.id == id) ↔ other = view := by
      rw [found, List.mem_singleton]
    simpa using member
  · cases checked

theorem updatedGroup_writes {expected : RecordRevision} {payload : GroupPayload} {scope : HostScope}
    (updated : updatedGroup state id expected payload now = .ok (scope, candidate))
    (valid : validateGroups candidate scope = .ok ()) (rows : Readable P candidate) :
    (∃ groups, listGroups state = .ok groups ∧ ∃ view, (∀ other, other ∈ groups ∧ other.group.id = id ↔ other = view) ∧
      view.group.scope = scope) ∧ WritesGroup state candidate ⟨id, scope, trimName payload⟩ := by
  obtain ⟨view, checked, updated⟩ := Result.bind_eq_ok.mp updated
  obtain ⟨_, updated⟩ := Result.check_eq_ok.mp updated
  obtain ⟨after, put, same⟩ := Result.bind_eq_ok.mp updated
  cases same
  obtain ⟨groups, listed, only, readable⟩ := checkedGroup_cases checked
  refine ⟨⟨groups, listed, view, only, rfl⟩, ?_⟩
  rw [putGroup, groupRecords_of_readable readable, Result.ok_bind] at put
  split at put
  · cases put
  obtain ⟨record, ordered, put⟩ := Result.bind_eq_ok.mp put
  obtain ⟨_, _, _, live, content, _⟩ := orderedRecord_spec ordered
  exact writesGroup_of_row ⟨.refl state, fun _ _ => rfl⟩ (fun _ _ => rfl) readable (Except.ok.inj put).symm rfl live
    content valid rows

/-- A group edit that writes one group keeps authority exactly when its ports do. -/
theorem WritesGroup.keeps_iff {edited : GroupRecord} {scope : HostScope} (spares : Spares state candidate)
    (writes : validateGroups candidate scope = .ok () → Readable P candidate → WritesGroup state candidate edited)
    (finished : finish P state candidate scope now = .ok next) :
    KeepsAuthority state next ↔ PortsSpared P state edited := by
  obtain ⟨old, new, valid, _, listed, listed', _⟩ := finish_cases finished
  rw [finish_keeps_iff spares finished, (writes valid (readable_of_listed listed')).pinsSpared_iff listed listed']

/-! ## Every local edit -/

/-- The two writes made without asking hit no shadowed record: the destination row of a move, and the pins of the
hosts that a written group puts on another port. -/
def LocalEdit.UncheckedWritesFree (P : Primitives) (state : SyncStateV3) : LocalEdit → Prop
  | moveHost id _ destination => FreeIn state destination .Host id
  | createGroup id scope payload _ => PortsSpared P state ⟨id, scope, trimName payload⟩
  | updateGroup id _ payload => ∀ groups, listGroups state = .ok groups → ∀ view ∈ groups, view.group.id = id →
      PortsSpared P state ⟨id, view.group.scope, trimName payload⟩
  | _ => True

/-- A deletion leaves every port as it is, so `finish` clears no pin. -/
theorem deleteGroup_spares {token : RepositorySnapshot → String} {expected : RecordRevision} {reviewed : Option String}
    (deleted : deleteGroup P token state id expected reviewed now = .ok next) : Spares state next := by
  obtain ⟨⟨scope, candidate⟩, result, finished⟩ := Result.bind_eq_ok.mp deleted
  obtain ⟨library, groups, middle, deletes⟩ := deletedGroups_cases result
  obtain rfl := finish_unchanged deletes.carries finished
  exact deletedGroups_spares result

/-- A successful local edit leaves every shadowed row alone exactly when its two unchecked
writes hit none. -/
theorem localEdit_keepsAuthority_iff (P : Primitives) (token : RepositorySnapshot → String)
    (edit : LocalEdit) (state next : SyncStateV3) (now : Nat)
    (fresh : ∀ id, edit.createdId = some id → Unnamed state id)
    (ran : edit.run P token state now = .ok next) :
    KeepsAuthority state next ↔ edit.UncheckedWritesFree P state := by
  cases edit with
  | createHost id scope payload =>
    exact iff_of_true (createHost_spares (fresh id rfl) ran).keepsAuthority trivial
  | updateHost id expected payload => exact iff_of_true (updateHost_spares ran).keepsAuthority trivial
  | deleteHost id expected => exact iff_of_true (deleteHost_spares ran).keepsAuthority trivial
  | moveHost id expected destination => exact moveHost_keeps_iff ran
  | pinHostKey id endpoint previous candidate =>
    exact iff_of_true (pinHostKey_spares ran).keepsAuthority trivial
  | forgetHostKey id expected endpoint pin =>
    exact iff_of_true (forgetHostKey_spares ran).keepsAuthority trivial
  | createGroup id scope payload confirmed =>
    obtain ⟨candidate, created, finished⟩ := Result.bind_eq_ok.mp ran
    exact WritesGroup.keeps_iff (createdGroup_spares (fresh id rfl) created) (createdGroup_writes created) finished
  | updateGroup id expected payload =>
    obtain ⟨⟨scope, candidate⟩, updated, finished⟩ := Result.bind_eq_ok.mp ran
    obtain ⟨_, _, valid, _, _, listed', _⟩ := finish_cases finished
    obtain ⟨⟨groups, listed, view, only, rfl⟩, writes⟩ :=
      updatedGroup_writes updated valid (readable_of_listed (P := P) listed')
    rw [WritesGroup.keeps_iff (updatedGroup_spares updated) (fun _ _ => writes) finished]
    constructor
    · intro spared groups' listed₁ other member named
      rw [listed] at listed₁
      cases listed₁
      rw [(only other).mp ⟨member, named⟩]
      exact spared
    · intro spared
      obtain ⟨member, named⟩ := (only view).mpr rfl
      exact spared groups listed view member named
  | deleteGroup id expected reviewed => exact iff_of_true (deleteGroup_spares ran).keepsAuthority trivial
  | setGroupOrder expectedIds expected ids =>
    exact iff_of_true (setGroupOrder_spares ran).keepsAuthority trivial
  | renameKey id expected name => exact iff_of_true (renameKey_spares ran).keepsAuthority trivial

namespace Sample

/-- Another name for the group. -/
def nameEdit : LocalEdit := .updateGroup groupId (revision groupRow.record) { groupPayload 22 with name := "h" }

theorem nameEdit_free : nameEdit.UncheckedWritesFree memberTable shadowedLibrary := by
  have ports : ∀ views ∈ (listHosts memberTable shadowedLibrary).toOption, ∀ view ∈ views,
      (walkEffective memberTable (groupsWith shadowedLibrary ⟨groupId, .Space chainId,
        trimName { groupPayload 22 with name := "h" }⟩ view.host.scope) view.host).port = view.effectivePayload.port := by
    decide +kernel
  have placed : ∀ groups ∈ (listGroups shadowedLibrary).toOption, ∀ view ∈ groups,
      view.group.scope = .Space chainId := by decide +kernel
  intro groups listed view member _ views shown host inViews _ port
  rw [placed groups (Result.mem_toOption.mpr listed) view member] at port
  exact absurd (ports views (Result.mem_toOption.mpr shown) host inViews) port

end Sample

theorem renamed_group_spares_shadowed_host :
    ∃ next, Sample.nameEdit.run Sample.memberTable (fun _ => "") Sample.shadowedLibrary 100 = .ok next ∧
      Sample.shadowedLibrary.shadowedAt (.Space Sample.chainId) .Host Sample.hostId = true ∧
      Sample.nameEdit.UncheckedWritesFree Sample.memberTable Sample.shadowedLibrary ∧
      KeepsAuthority Sample.shadowedLibrary next := by
  have succeeds : (Sample.nameEdit.run Sample.memberTable (fun _ => "") Sample.shadowedLibrary 100).isOk
      = true := by decide +kernel
  obtain ⟨next, ran⟩ := Result.isOk_iff.mp succeeds
  refine ⟨next, ran, by decide +kernel, Sample.nameEdit_free, ?_⟩
  refine (localEdit_keepsAuthority_iff _ _ Sample.nameEdit _ next 100 ?_ ran).mpr Sample.nameEdit_free
  intro id created
  cases created

theorem group_edit_rewrites_shadowed_host :
    ∃ next, Sample.portEdit.run Sample.memberTable (fun _ => "") Sample.shadowedLibrary 100 = .ok next ∧
      Sample.shadowedLibrary.shadowedAt (.Space Sample.chainId) .Host Sample.hostId = true ∧
      (next.recordsAt (.Space Sample.chainId))[recordKey .Host Sample.hostId]? ≠
        (Sample.shadowedLibrary.recordsAt (.Space Sample.chainId))[recordKey .Host Sample.hostId]? ∧
      next.shadowedAt (.Space Sample.chainId) .Host Sample.hostId = false := by
  have facts : ∃ next ∈ (Sample.portEdit.run Sample.memberTable (fun _ => "") Sample.shadowedLibrary
      100).toOption, Sample.shadowedLibrary.shadowedAt (.Space Sample.chainId) .Host Sample.hostId = true ∧
      (next.recordsAt (.Space Sample.chainId))[recordKey .Host Sample.hostId]? ≠
        (Sample.shadowedLibrary.recordsAt (.Space Sample.chainId))[recordKey .Host Sample.hostId]? ∧
      next.shadowedAt (.Space Sample.chainId) .Host Sample.hostId = false := by decide +kernel
  obtain ⟨next, ran, facts⟩ := facts
  refine ⟨next, ?_, facts⟩
  cases result : Sample.portEdit.run Sample.memberTable (fun _ => "") Sample.shadowedLibrary 100 with
  | error e => simp [result, Except.toOption] at ran
  | ok other =>
    simp only [result, Except.toOption, Option.mem_def, Option.some.injEq] at ran
    rw [ran]

end Sshelter.Sync
