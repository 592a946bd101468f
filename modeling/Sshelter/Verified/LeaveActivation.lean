import Sshelter.Verified.LeaveLibrary

/-! # Activating the plan

The activation writes the rows of the plan, checks the hosts of this device once more and
drops the account.  What it leaves is a library of this device alone.
-/

namespace Sshelter.Sync.RecordLeave

variable {P : Primitives} {state : SyncStateV3} {spaces : BTreeMap SpaceStateV3} {draws : List String}
  {library : RepositorySnapshot} {now : Nat} {locals : List HostRecord}
  {used : List (Option String × String)} {assigned : Assigning} {final : Planning}
  {hosts : List (Assigned × HostPayload)} {groups : List (Assigned × GroupPayload)}

/-- The state that the activation leaves. -/
def leftState (op : PendingAccountOperation) (state : SyncStateV3) (now : Nat) (final : Planning)
    (hosts : List (Assigned × HostPayload)) (groups : List (Assigned × GroupPayload)) : SyncStateV3 :=
  let filled := filledState state now hosts groups
  let groupOrder := remappedOrder final.groups (orderView state).ids
  { filled with
    «local» := { filled.local with groupOrder }
    version := if groupOrder.isEmpty then state.version else max state.version NAVIGATION_STATE_VERSION
    account := none, spaces := ∅, rotation := false, migrationGate := none, sharedWritesBlocked := false
    lastError := none, pendingAccount := some { op with phase := .Activated } }

/-- A host of the library and the host that stands for it afterwards. -/
structure KeptHost (rename : String → String) (before after : List HostView) (view kept : HostView) : Prop where
  id : kept.host.id = rename view.host.id
  scope : kept.host.scope = .Local
  resolved : kept.groupError = none
  settings : kept.effectivePayload = movedHost rename kept.host.payload.aliasName view.effectivePayload
  aliasName : kept.host.payload.aliasName = view.host.payload.aliasName ∨
    view.host.scope ≠ .Local ∧ kept.host.payload.aliasName = remappedAlias view.host.payload.aliasName kept.host.id
  own : view.host.scope = .Local → kept.host = view.host
  route : ∃ ids, routeIds before view.host.id = .ok ids ∧ routeIds after kept.host.id = .ok (ids.map rename)

/-- The key is the one of a live record of a selected space, under its new id. -/
def NewKey (spaces : BTreeMap SpaceStateV3) (kind : RecordKind) (rename : String → String) (key : String) : Prop :=
  ∃ entry ∈ liveRows spaces, entry.2.record.kind = kind ∧ key = recordKey kind (rename entry.2.record.id)

/-- The id of a group that is kept gives way to its new id. -/
def orderedId (spaces : BTreeMap SpaceStateV3) (rename : String → String) (id : String) : String :=
  if (liveRows spaces).any fun entry => entry.2.record.kind == .Group && entry.2.record.id == id then rename id
  else id

/-- The device keeps its library without the account: its own records stay as they are, every live record of a
selected space has its one copy under a drawn id, and the hosts have their settings and routes under the new ids. -/
structure KeptLibrary (P : Primitives) (state : SyncStateV3) (spaces : BTreeMap SpaceStateV3) (draws : List String)
    (library : RepositorySnapshot) (rename : String → String) (next : SyncStateV3) : Prop where
  left : next.account = none ∧ next.spaces = ∅
  fixed : ∀ id ∈ localIds state, rename id = id
  injective : ∀ entry ∈ liveRows spaces, ∀ other ∈ liveRows spaces,
    rename entry.2.record.id = rename other.2.record.id → entry = other
  drawn : ∀ entry ∈ liveRows spaces, rename entry.2.record.id ∈ draws
  keptHosts : ∀ (key : String) row, state.local.hosts[key]? = some row → next.local.hosts[key]? = some row
  keptGroups : ∀ (key : String) row, state.local.groups[key]? = some row → next.local.groups[key]? = some row
  newHosts : ∀ key : String, state.local.hosts[key]? = none ∧ (next.local.hosts[key]?).isSome = true ↔
    NewKey spaces .Host rename key
  newGroups : ∀ key : String, state.local.groups[key]? = none ∧ (next.local.groups[key]?).isSome = true ↔
    NewKey spaces .Group rename key
  hosts : ∃ after, listHosts P next = .ok after ∧ (after.map (·.host.id)).Nodup ∧
    (after.map (·.host.payload.aliasName)).Nodup ∧
    (∀ view ∈ library.hosts, ∃ kept ∈ after, KeptHost rename library.hosts after view kept) ∧
    ∀ kept ∈ after, ∃ view ∈ library.hosts, KeptHost rename library.hosts after view kept
  groups : ∀ entry ∈ liveRows spaces, entry.2.record.kind = .Group → ∃ found kept,
    decodeGroup entry.2.record .Local = .ok (.Live found) ∧
      group next .Local (rename entry.2.record.id) = .ok kept ∧
      kept.payload = movedGroup rename kept.payload.name found.payload ∧
      (kept.payload.name = found.payload.name ∨
        kept.payload.name = remappedGroupName found.payload.name (rename entry.2.record.id))
  names : ∀ id found other found', LiveGroup next .Local id found → LiveGroup next .Local other found' →
    siblingName found.payload = siblingName found'.payload →
      id = other ∨ id ∈ localIds state ∧ other ∈ localIds state
  order : next.local.groupOrder = (orderView state).ids.map (orderedId spaces rename)

namespace Prepared

variable (prepared : Prepared P state spaces draws now library locals used assigned final hosts groups)
include prepared

theorem activate_ok {account : AccountState} {op : PendingAccountOperation} (joined : state.account = some account)
    (chain : op.preparedAccount.chainId = account.chainId) :
    activate P (made spaces final) op { state with pendingAccount := some op } =
      .ok (leftState op state now final hosts groups) := by
  obtain ⟨kept, read, perm, _⟩ := prepared.filled_hosts
  let filled : SyncStateV3 := { filledState state now hosts groups with pendingAccount := some op }
  have guard : ((some op).map (·.id) != some op.id ||
      state.account.map (·.chainId) != some op.preparedAccount.chainId) = false := by
    simp [joined, chain]
  -- the filled library has the candidate's groups, so its hosts resolve alike
  have unmoved : ∀ {host : HostRecord}, host.scope = .Local →
      resolveEffective P filled host = resolveEffective P (candidateState state final.groups) host :=
    fun placed => prepared.resolve_filled
      (show filled.local.groups = (filledState state now hosts groups).local.groups from rfl) placed
  have resolve : ∀ host ∈ kept, ∃ effective, resolveEffective P filled host = .ok effective := by
    intro host member
    obtain ⟨view, _, counterpart⟩ := prepared.view_of_existing (perm.mem_iff.mp member)
    obtain ⟨effective, resolves, _⟩ := counterpart.resolves
    exact ⟨effective, (unmoved counterpart.scope).trans resolves⟩
  have validates : RecordsV3.validateHosts P (kept.map fun host =>
      { host with payload := effectiveOf P filled host }) = .ok () := by
    refine (prepared.plan_hosts.perm ?_).validates
    have same : (kept.map fun host => { host with payload := effectiveOf P filled host }) =
        kept.map fun host => { host with payload := effectiveOf P (candidateState state final.groups) host } := by
      apply List.map_congr_left
      intro host member
      obtain ⟨view, _, counterpart⟩ := prepared.view_of_existing (perm.mem_iff.mp member)
      simp only [effectiveOf]
      rw [unmoved counterpart.scope]
    rw [same]
    exact perm.map _
  have localsRead : localHosts P filled = .ok kept := read
  have checked : orFail (RecordsV3.validateHosts P (kept.map fun host =>
      { host with payload := effectiveOf P filled host })) "latest local routes conflict with preservation plan" =
        .ok () := by
    rw [validates]
    rfl
  have effective : orFail (effectiveHosts P filled kept) "preserved inheritance needs review" =
      .ok (kept.map fun host => { host with payload := effectiveOf P filled host }) := by
    rw [effectiveHosts_eq resolve]
    rfl
  have placedHosts : (made spaces final).hosts.foldlM placeHost state.local.hosts =
      .ok (filledState state now hosts groups).local.hosts := prepared.hosts_placed
  have placedGroups : (made spaces final).groups.foldlM placeGroup state.local.groups =
      .ok (filledState state now hosts groups).local.groups := prepared.groups_placed
  have order : (orderView { state with pendingAccount := some op }).ids = (orderView state).ids := by
    cases held : state.account <;> simp [orderView, held]
  unfold activate
  rw [guard, Result.refuse_false, Result.ok_bind, placedHosts, Result.ok_bind, placedGroups, Result.ok_bind]
  refine Result.bind_eq_ok.mpr ⟨kept, localsRead, Result.bind_eq_ok.mpr ⟨_, effective, ?_⟩⟩
  rw [checked, Result.ok_bind, order]
  rfl

/-! ## The library afterwards -/

theorem left_readable (op : PendingAccountOperation) : Readable P (leftState op state now final hosts groups) := by
  have before := prepared.leaving.readable
  refine
    { header :=
        { version := ?_, device := before.header.device, joined := fun _ => rfl
          account := fun _ joined => by cases joined
          spaces := fun id space found => by simp [leftState] at found }
      keys := before.keys
      account := fun _ joined => by cases joined
      hosts := ?_
      groups := ?_ }
  · have version := before.header.version
    simp only [sourceState, STATE_VERSION, GROUP_STATE_VERSION, NAVIGATION_STATE_VERSION] at version
    simp only [leftState, STATE_VERSION, GROUP_STATE_VERSION, NAVIGATION_STATE_VERSION]
    split <;> omega
  · intro scope member key row held
    obtain rfl : scope = .Local := List.mem_singleton.mp member
    exact prepared.hostRow_readable held
  · intro scope member key row held
    obtain rfl : scope = .Local := List.mem_singleton.mp member
    exact prepared.groupRow_readable held

/-- The hosts of the state are the hosts of the plan. -/
theorem left_holds {op : PendingAccountOperation} {host : HostRecord} :
    (∃ row, Holds P (leftState op state now final hosts groups) host row) ↔ host ∈ final.existing := by
  obtain ⟨_, _, _, mem⟩ := prepared.filled_hosts
  rw [mem]
  constructor
  · rintro ⟨row, scope, held, decodes⟩
    have placed : host.scope = .Local := List.mem_singleton.mp scope
    rw [placed] at held decodes
    exact ⟨row, held, decodes⟩
  · rintro ⟨row, held, decodes⟩
    have placed : host.scope = .Local := (decodeHost_live decodes).2.2.2.1
    exact ⟨row, by rw [placed]; exact List.mem_cons_self, by rw [placed]; exact held, by rw [placed]; exact decodes⟩

theorem left_resolves (op : PendingAccountOperation) {host : HostRecord} (placed : host.scope = .Local) :
    resolveEffective P (leftState op state now final hosts groups) host =
      resolveEffective P (candidateState state final.groups) host := by
  apply prepared.resolve_filled _ placed
  rfl

theorem left_counterpart (op : PendingAccountOperation) {view : HostView} {host : HostRecord}
    (counterpart : Counterpart P (candidateState state final.groups) (remapped assigned.remap) view host) :
    Counterpart P (leftState op state now final hosts groups) (remapped assigned.remap) view host := by
  obtain ⟨effective, resolves, payload⟩ := counterpart.resolves
  refine { counterpart with resolves := ⟨effective, ?_, payload⟩ }
  rw [← resolves]
  exact prepared.left_resolves op counterpart.scope

section Listed
variable {op : PendingAccountOperation} {after : List HostView}
  (listed : listHosts P (leftState op state now final hosts groups) = .ok after)
include listed

theorem left_view {view : HostView} (member : view ∈ library.hosts) : ∃ kept ∈ after,
    Counterpart P (leftState op state now final hosts groups) (remapped assigned.remap) view kept.host := by
  obtain ⟨host, inExisting, counterpart⟩ := prepared.counterpart_of_view member
  obtain ⟨row, holds⟩ := prepared.left_holds.mpr inExisting
  obtain ⟨kept, inAfter, rfl, _⟩ := exists_view listed holds
  exact ⟨kept, inAfter, prepared.left_counterpart op counterpart⟩

theorem view_of_left {kept : HostView} (member : kept ∈ after) : ∃ view ∈ library.hosts,
    Counterpart P (leftState op state now final hosts groups) (remapped assigned.remap) view kept.host := by
  obtain ⟨row, shown⟩ := shown_of_mem listed member
  obtain ⟨view, inHosts, counterpart⟩ := prepared.view_of_existing (prepared.left_holds.mp ⟨row, shown.holds⟩)
  exact ⟨view, inHosts, prepared.left_counterpart op counterpart⟩

omit prepared in
/-- A host of the library afterwards shows the settings of its counterpart. -/
theorem shows_counterpart {kept : HostView} (member : kept ∈ after) {view : HostView}
    (counterpart : Counterpart P (leftState op state now final hosts groups) (remapped assigned.remap) view
      kept.host) :
    kept.groupError = none ∧
      kept.effectivePayload = movedHost (remapped assigned.remap) kept.host.payload.aliasName view.effectivePayload := by
  obtain ⟨row, shown⟩ := shown_of_mem listed member
  obtain ⟨effective, resolves, payload⟩ := counterpart.resolves
  constructor
  · rw [shown.groupError, groupErrorOf, resolves]
  · rw [shown.effective, effectiveOf_eq resolves, payload]

theorem left_existing : (after.map (·.host)).Perm final.existing := by
  rw [List.perm_ext_iff_of_nodup (listed_nodup listed) (prepared.distinct_existing.of_map _)]
  exact fun host => (mem_listed listed).trans prepared.left_holds

theorem left_renamed : Renamed (remapped assigned.remap) library.hosts after := by
  have planned := prepared.plan_renamed
  refine ⟨planned.injective, .trans ?_ planned.alike⟩
  have entries : after.map (fun view => (view.host.id, view.effectivePayload.jump)) =
      (after.map (·.host)).map fun host =>
        (host.id, (effectiveOf P (candidateState state final.groups) host).jump) := by
    rw [List.map_map]
    apply List.map_congr_left
    intro kept member
    obtain ⟨row, shown⟩ := shown_of_mem listed member
    obtain ⟨view, _, counterpart⟩ := prepared.view_of_existing (prepared.left_holds.mp ⟨row, shown.holds⟩)
    obtain ⟨effective, resolves, _⟩ := counterpart.resolves
    obtain ⟨effective', resolves', _⟩ := (prepared.left_counterpart op counterpart).resolves
    have same := prepared.left_resolves op counterpart.scope
    rw [resolves, resolves'] at same
    cases same
    rw [shown.effective, effectiveOf_eq resolves', Function.comp_apply, effectiveOf_eq resolves]
  have perm := (prepared.left_existing listed).map fun host : HostRecord =>
    (host.id, (effectiveOf P (candidateState state final.groups) host).jump)
  rw [entries]
  refine perm.trans ?_
  rw [List.map_map, List.map_map]
  exact .rfl

theorem left_distinct : (after.map (·.host.id)).Nodup := by
  have ids := ((prepared.left_existing listed).map (·.id)).nodup_iff.mpr prepared.distinct_existing
  rwa [List.map_map] at ids

theorem left_aliases : (after.map (·.host.payload.aliasName)).Nodup := by
  have aliases := ((prepared.left_existing listed).map (·.payload.aliasName)).nodup_iff.mpr
    prepared.copied.distinctAliases
  rwa [List.map_map] at aliases

/-- A counterpart keeps the host. -/
theorem kept_host {view kept : HostView} (inHosts : view ∈ library.hosts) (member : kept ∈ after)
    (counterpart : Counterpart P (leftState op state now final hosts groups) (remapped assigned.remap) view
      kept.host) : KeptHost (remapped assigned.remap) library.hosts after view kept := by
  obtain ⟨resolved, settings⟩ := shows_counterpart listed member counterpart
  obtain ⟨indices, walked⟩ := Result.isOk_iff.mp (prepared.leaving.clean view inHosts).route
  have route : routeIds library.hosts view.host.id = .ok (indices.map (idAt library.hosts)) := by
    rw [routeIds, walked]
    rfl
  refine
    { id := counterpart.id, scope := counterpart.scope, resolved, settings, aliasName := counterpart.aliasName
      own := counterpart.same, route := ⟨_, route, ?_⟩ }
  rw [counterpart.id]
  exact (prepared.left_renamed listed).routeIds_ok route

end Listed

/-! ## The rows afterwards -/

theorem rename_row {row : Assigned} (member : row ∈ assignedRows spaces draws) :
    remapped assigned.remap row.source.record.id = row.id := prepared.renames.moved member

theorem rename_drawn {entry : String × LocalRecord} (live : entry ∈ liveRows spaces) :
    remapped assigned.remap entry.2.record.id ∈ draws := by
  obtain ⟨row, member, _, source⟩ := exists_assigned prepared.leaving.fresh.enough live
  rw [← source, prepared.rename_row member]
  exact assigned_drawn member

theorem rename_live {entry other : String × LocalRecord} (live : entry ∈ liveRows spaces)
    (live' : other ∈ liveRows spaces)
    (same : remapped assigned.remap entry.2.record.id = remapped assigned.remap other.2.record.id) :
    entry = other := by
  have ids := prepared.rename_injective (prepared.leaving.live_not_drawn live) (prepared.leaving.live_not_drawn live')
    same
  exact List.inj_on_of_nodup_map prepared.leaving.leavable.distinct live live' ids

theorem host_key_new {key : String} : state.local.hosts[key]? = none ∧
    ((filledState state now hosts groups).local.hosts[key]?).isSome = true ↔
      NewKey spaces .Host (remapped assigned.remap) key := by
  constructor
  · rintro ⟨free, held⟩
    obtain ⟨row, held⟩ := Option.isSome_iff_exists.mp held
    obtain before | ⟨copy, member, rfl, _⟩ := prepared.filled_host held
    · rw [free] at before
      cases before
    · obtain ⟨inRows, _⟩ := prepared.row_of_host_copy member
      refine ⟨_, assigned_live prepared.leaving.fresh.enough inRows, (prepared.valid_host_copy member).2, ?_⟩
      rw [prepared.rename_row inRows]
  · rintro ⟨entry, live, kind, rfl⟩
    obtain ⟨copy, member, _, source⟩ := prepared.host_copy_of_live live (by simp [kind])
    obtain ⟨inRows, _⟩ := prepared.row_of_host_copy member
    rw [← source, prepared.rename_row inRows]
    refine ⟨prepared.host_key_free (assigned_drawn inRows), ?_⟩
    rw [prepared.filled_host_copy member, Option.isSome_some]

theorem group_key_new {key : String} : state.local.groups[key]? = none ∧
    ((filledState state now hosts groups).local.groups[key]?).isSome = true ↔
      NewKey spaces .Group (remapped assigned.remap) key := by
  constructor
  · rintro ⟨free, held⟩
    obtain ⟨row, held⟩ := Option.isSome_iff_exists.mp held
    obtain before | ⟨copy, member, rfl, _⟩ := prepared.filled_group held
    · rw [free] at before
      cases before
    · obtain ⟨inRows, kind⟩ := prepared.row_of_group_copy member
      refine ⟨_, assigned_live prepared.leaving.fresh.enough inRows, kind, ?_⟩
      rw [prepared.rename_row inRows]
  · rintro ⟨entry, live, kind, rfl⟩
    obtain ⟨copy, member, _, source⟩ := prepared.group_copy_of_live live kind
    obtain ⟨inRows, _⟩ := prepared.row_of_group_copy member
    rw [← source, prepared.rename_row inRows]
    refine ⟨prepared.leaving.fresh.unkeyed _ (assigned_drawn inRows), ?_⟩
    rw [prepared.filled_group_copy member, Option.isSome_some]

theorem left_group {op : PendingAccountOperation} {entry : String × LocalRecord} (live : entry ∈ liveRows spaces)
    (kind : entry.2.record.kind = .Group) : ∃ found kept,
      decodeGroup entry.2.record .Local = .ok (.Live found) ∧
        group (leftState op state now final hosts groups) .Local (remapped assigned.remap entry.2.record.id) =
          .ok kept ∧
        kept.payload = movedGroup (remapped assigned.remap) kept.payload.name found.payload ∧
        (kept.payload.name = found.payload.name ∨ kept.payload.name =
          remappedGroupName found.payload.name (remapped assigned.remap entry.2.record.id)) := by
  obtain ⟨copy, member, _, source⟩ := prepared.group_copy_of_live live kind
  obtain ⟨inRows, _⟩ := prepared.row_of_group_copy member
  obtain ⟨found, decodes, shape, named⟩ := prepared.copied.groupCopies copy member
  rw [← source, prepared.rename_row inRows]
  refine ⟨found, { id := copy.1.id, scope := .Local, payload := copy.2 }, decodes, ?_, shape, named⟩
  rw [← prepared.candidate_copy member]
  apply group_local_congr
  rw [prepared.candidate_groups]
  rfl

/-- A group afterwards was here before or is a copy. -/
theorem live_group_cases {op : PendingAccountOperation} {id : String} {found : GroupRecord}
    (live : LiveGroup (leftState op state now final hosts groups) .Local id found) :
    LiveGroup (sourceState state spaces) .Local id found ∧ id ∈ localIds state ∨
      ∃ copy ∈ groups, id = copy.1.id ∧ found.payload = copy.2 := by
  obtain ⟨_, row, held, decodes⟩ := live
  obtain before | ⟨copy, member, key, rfl⟩ := prepared.filled_group held
  · left
    refine ⟨⟨List.mem_cons_self, row, before, decodes⟩, ?_⟩
    have kind := (decodeGroup_live decodes).1
    have cached := (prepared.leaving.readable.groups .Local List.mem_cons_self _ _ before).cached kind
    rw [(recordKey_injective cached.key).2]
    exact List.mem_map_of_mem (f := fun row : LocalRecord => row.record.id)
      (List.mem_append_right _ (BTreeMap.mem_values.mpr ⟨_, before⟩))
  · rw [prepared.decodes_group_copy member] at decodes
    cases decodes
    exact .inr ⟨copy, member, (recordKey_injective key).2, rfl⟩

theorem left_names {op : PendingAccountOperation} {id other : String} {found found' : GroupRecord}
    (live : LiveGroup (leftState op state now final hosts groups) .Local id found)
    (live' : LiveGroup (leftState op state now final hosts groups) .Local other found')
    (same : siblingName found.payload = siblingName found'.payload) :
    id = other ∨ id ∈ localIds state ∧ other ∈ localIds state := by
  obtain ⟨before, here⟩ | ⟨copy, member, rfl, copied⟩ := prepared.live_group_cases live
  · obtain ⟨_, here'⟩ | ⟨copy, member, rfl, copied⟩ := prepared.live_group_cases live'
    · exact .inr ⟨here, here'⟩
    · refine absurd ((prepared.names _).mpr ⟨id, found, before, ?_⟩) (prepared.copied.apartNames copy member)
      rw [same, copied]
  · obtain ⟨before, _⟩ | ⟨copy', member', rfl, copied'⟩ := prepared.live_group_cases live'
    · refine absurd ((prepared.names _).mpr ⟨other, found', before, ?_⟩) (prepared.copied.apartNames copy member)
      rw [← same, copied]
    · rw [copied, copied'] at same
      exact .inl (by rw [List.inj_on_of_nodup_map prepared.copied.distinctNames member member' same])

theorem left_order : remappedOrder final.groups (orderView state).ids =
    (orderView state).ids.map (orderedId spaces (remapped assigned.remap)) := by
  apply List.map_congr_left
  intro id _
  have found_iff : (liveRows spaces).any (fun entry => entry.2.record.kind == .Group && entry.2.record.id == id) =
      (final.groups.find? fun planned => planned.sourceGroupId == id).isSome := by
    rw [Bool.eq_iff_iff, List.any_eq_true, List.find?_isSome, prepared.copied.plannedGroups]
    constructor
    · rintro ⟨entry, live, named⟩
      rw [Bool.and_eq_true, beq_iff_eq, beq_iff_eq] at named
      obtain ⟨copy, member, _, source⟩ := prepared.group_copy_of_live live named.1
      refine ⟨_, List.mem_map_of_mem member, ?_⟩
      rw [← named.2, ← source]
      exact beq_self_eq_true _
    · rintro ⟨planned, member, named⟩
      obtain ⟨copy, inGroups, rfl⟩ := List.mem_map.mp member
      obtain ⟨inRows, kind⟩ := prepared.row_of_group_copy inGroups
      refine ⟨_, assigned_live prepared.leaving.fresh.enough inRows, ?_⟩
      rw [Bool.and_eq_true, beq_iff_eq, beq_iff_eq]
      exact ⟨kind, by simpa [plannedGroup] using named⟩
  rw [orderedId, found_iff]
  cases search : final.groups.find? fun planned => planned.sourceGroupId == id with
  | none => rfl
  | some planned =>
    have member := List.mem_of_find?_eq_some search
    have named := List.find?_some search
    rw [prepared.copied.plannedGroups] at member
    obtain ⟨copy, inGroups, rfl⟩ := List.mem_map.mp member
    have source : copy.1.source.record.id = id := by simpa [plannedGroup] using named
    rw [Option.isSome_some, if_pos rfl, ← source, prepared.rename_row (prepared.row_of_group_copy inGroups).1]
    rfl

theorem keeps_library (op : PendingAccountOperation) :
    KeptLibrary P state spaces draws library (remapped assigned.remap) (leftState op state now final hosts groups) := by
  have readable := prepared.left_readable op
  obtain ⟨after, listed⟩ : ∃ after, listHosts P (leftState op state now final hosts groups) = .ok after :=
    Result.isOk_iff.mp (listHosts_isOk.trans (snapshot_isOk_iff.mpr readable))
  refine
    { left := ⟨rfl, rfl⟩
      fixed := fun id here => prepared.rename_local here
      injective := fun entry live other live' same => prepared.rename_live live live' same
      drawn := fun entry live => prepared.rename_drawn live
      keptHosts := fun key row held => prepared.filled_host_kept held
      keptGroups := fun key row held => prepared.filled_group_kept held
      newHosts := fun key => prepared.host_key_new
      newGroups := fun key => prepared.group_key_new
      hosts := ⟨after, listed, prepared.left_distinct listed, prepared.left_aliases listed, ?_, ?_⟩
      groups := fun entry live kind => prepared.left_group live kind
      names := fun id found other found' live live' same => prepared.left_names live live' same
      order := prepared.left_order }
  · intro view inHosts
    obtain ⟨kept, member, counterpart⟩ := prepared.left_view listed inHosts
    exact ⟨kept, member, prepared.kept_host listed inHosts member counterpart⟩
  · intro kept member
    obtain ⟨view, inHosts, counterpart⟩ := prepared.view_of_left listed member
    exact ⟨view, inHosts, prepared.kept_host listed inHosts member counterpart⟩

end Prepared

end Sshelter.Sync.RecordLeave
