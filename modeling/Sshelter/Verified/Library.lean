import Sshelter.Verified.OpaqueAuthority

/-! # What a library shows

The rows behind the host views of a snapshot, and the settings each host has there.  A
host is resolved from its own row and the group rows of its scope, so writing another
host's row changes nothing about it.
-/

namespace Sshelter.Sync

variable {P : Primitives} {state state' : SyncStateV3}

/-! ## Effective settings -/

/-- The settings a host is shown with: the inherited ones, or its own while its groups do not
resolve. -/
def effectiveOf (P : Primitives) (state : SyncStateV3) (host : HostRecord) : HostPayload :=
  match resolveEffective P state host with
  | .ok effective => effective.payload
  | .error _ => host.payload

/-- The defect that keeps a host's groups from resolving. -/
def groupErrorOf (P : Primitives) (state : SyncStateV3) (host : HostRecord) : Option RepositoryError :=
  match resolveEffective P state host with
  | .ok _ => none
  | .error error => some error

/-- A live host row of a readable scope. -/
structure Holds (P : Primitives) (state : SyncStateV3) (host : HostRecord) (row : LocalRecord) : Prop where
  scope : host.scope ∈ readableScopes state
  held : (state.hostRecords host.scope)[recordKey .Host host.id]? = some row
  decodes : decodeHost P row.record host.scope = .ok (.Live host)

/-- The library shows the host from this row. -/
structure Shown (P : Primitives) (state : SyncStateV3) (view : HostView) (row : LocalRecord) : Prop where
  holds : Holds P state view.host row
  revision : view.revision = revision row.record
  effective : view.effectivePayload = effectiveOf P state view.host
  groupError : view.groupError = groupErrorOf P state view.host

theorem Holds.unique {host other : HostRecord} {row row' : LocalRecord} (first : Holds P state host row)
    (second : Holds P state other row') (scope : host.scope = other.scope) (id : host.id = other.id) :
    host = other ∧ row = row' := by
  have rows := first.held
  rw [scope, id, second.held] at rows
  cases rows
  have same := first.decodes
  rw [scope, second.decodes] at same
  cases same
  exact ⟨rfl, rfl⟩

/-! ## Views and rows -/

theorem resolveView_shows (view : HostView) (own : view.effectivePayload = view.host.payload)
    (clean : view.groupError = none) :
    (resolveView P state view).effectivePayload = effectiveOf P state view.host ∧
      (resolveView P state view).groupError = groupErrorOf P state view.host := by
  unfold resolveView effectiveOf groupErrorOf
  cases resolveEffective P state view.host with
  | ok effective => exact ⟨rfl, clean⟩
  | error error => exact ⟨own, rfl⟩

/-- A row read from disk is shown with its own settings first. -/
theorem readHost_plain {scope : HostScope} {sealed : Option (BTreeMap SealedRecord)}
    {entry : String × LocalRecord} {views : List HostView} (read : readHost P scope sealed entry = .ok views) :
    ∀ view ∈ views, view.effectivePayload = view.host.payload ∧ view.groupError = none := by
  obtain ⟨key, row⟩ := entry
  rw [readHost, Result.check_eq_ok] at read
  obtain ⟨_, read⟩ := read
  split at read
  · cases read
    simp
  · obtain ⟨decoded, _, read⟩ := Result.bind_eq_ok.mp read
    cases decoded with
    | Tombstone id =>
      cases read
      simp
    | Live host =>
      cases read
      intro view member
      obtain rfl := List.mem_singleton.mp member
      exact ⟨rfl, rfl⟩

theorem readScope_entries {scope : HostScope} {views : List HostView}
    (read : readScope P state scope = .ok views) :
    ∃ sealed lists, (state.hostRecords scope).toList.mapM (readHost P scope sealed) = .ok lists ∧
      views = lists.flatten := by
  cases scope with
  | «Local» =>
    obtain ⟨lists, mapped, same⟩ := Result.bind_eq_ok.mp read
    exact ⟨none, lists, mapped, (Except.ok.inj same).symm⟩
  | Space spaceId =>
    obtain ⟨lists, mapped, same⟩ := Result.bind_eq_ok.mp read
    exact ⟨_, lists, mapped, (Except.ok.inj same).symm⟩

/-- The hosts of a snapshot, before their readiness is worked out. -/
theorem listHosts_parts {hosts : List HostView} (listed : listHosts P state = .ok hosts) :
    ∃ (lists : List (List HostView)) (ready : HostView → HostReadiness),
      (readableScopes state).mapM (readScope P state) = .ok lists ∧
      hosts = (lists.flatten.map (resolveView P state)).map
        fun view => { view with readiness := ready view } := by
  obtain ⟨library, read, same⟩ := Result.bind_eq_ok.mp listed
  obtain rfl : library.hosts = hosts := Except.ok.inj same
  rw [snapshot, Result.check_eq_ok] at read
  obtain ⟨_, read⟩ := read
  obtain ⟨keys, _, read⟩ := Result.bind_eq_ok.mp read
  obtain ⟨lists, scopes, read⟩ := Result.bind_eq_ok.mp read
  obtain ⟨groups, _, read⟩ := Result.bind_eq_ok.mp read
  cases read
  exact ⟨lists, _, scopes, rfl⟩

theorem shown_of_mem {hosts : List HostView} (listed : listHosts P state = .ok hosts) {view : HostView}
    (member : view ∈ hosts) : ∃ row, Shown P state view row := by
  obtain ⟨row, read⟩ := (listHosts_spec listed).2 view member
  obtain ⟨lists, ready, scopes, rfl⟩ := listHosts_parts listed
  simp only [List.map_map, List.mem_map, Function.comp_apply] at member
  obtain ⟨base, inLists, rfl⟩ := member
  obtain ⟨views, inList, inViews⟩ := List.mem_flatten.mp inLists
  obtain ⟨scope, _, ran⟩ := (Result.mem_mapM scopes).mp inList
  obtain ⟨sealed, rows, mapped, rfl⟩ := readScope_entries ran
  obtain ⟨single, inRows, inSingle⟩ := List.mem_flatten.mp inViews
  obtain ⟨entry, _, ran⟩ := (Result.mem_mapM mapped).mp inRows
  obtain ⟨own, clean⟩ := readHost_plain ran base inSingle
  obtain ⟨effective, groupError⟩ := resolveView_shows base own clean
  refine ⟨row, ⟨read.scope, read.held, read.decodes⟩, read.revision, ?_, ?_⟩
  · simpa using effective
  · simpa using groupError

theorem exists_view {hosts : List HostView} (listed : listHosts P state = .ok hosts) {host : HostRecord}
    {row : LocalRecord} (holds : Holds P state host row) :
    ∃ view ∈ hosts, view.host = host ∧ Shown P state view row := by
  have all := listed
  obtain ⟨lists, ready, scopes, rfl⟩ := listHosts_parts listed
  have ok := (Result.mapM_isOk.mp (by rw [scopes]; rfl)) host.scope holds.scope
  obtain ⟨views, ran⟩ := Result.isOk_iff.mp ok
  obtain ⟨sealed, rows, mapped, flat⟩ := readScope_entries ran
  have inRecords := BTreeMap.mem_toList.mpr holds.held
  have ok := (Result.mapM_isOk.mp (by rw [mapped]; rfl)) _ inRecords
  obtain ⟨single, read⟩ := Result.isOk_iff.mp ok
  obtain ⟨kind, _⟩ := decodeHost_live holds.decodes
  have shows : ∃ view ∈ single, view.host = host := by
    rw [readHost, Result.check_eq_ok] at read
    obtain ⟨_, read⟩ := read
    rw [if_neg (by simp [kind]), holds.decodes] at read
    cases read
    exact ⟨_, List.mem_singleton_self _, rfl⟩
  obtain ⟨base, inSingle, rfl⟩ := shows
  have inViews : base ∈ views := by
    rw [flat]
    exact List.mem_flatten.mpr ⟨single, (Result.mem_mapM mapped).mpr ⟨_, inRecords, read⟩, inSingle⟩
  have inLists : base ∈ lists.flatten :=
    List.mem_flatten.mpr ⟨views, (Result.mem_mapM scopes).mpr ⟨_, holds.scope, ran⟩, inViews⟩
  have member := List.mem_map_of_mem (f := fun view => { view with readiness := ready view })
    (List.mem_map_of_mem (f := resolveView P state) inLists)
  obtain ⟨row', shown⟩ := shown_of_mem all member
  have same : row = row' := (holds.unique shown.holds (by simp) (by simp)).2
  subst same
  exact ⟨_, member, by simp, shown⟩

theorem listed_nodup {hosts : List HostView} (listed : listHosts P state = .ok hosts) :
    (hosts.map (·.host)).Nodup := by
  apply List.Nodup.of_map fun host => (host.scope, host.id)
  rw [List.map_map]
  exact (listHosts_spec listed).1

theorem mem_listed {hosts : List HostView} (listed : listHosts P state = .ok hosts) {host : HostRecord} :
    host ∈ hosts.map (·.host) ↔ ∃ row, Holds P state host row := by
  constructor
  · intro member
    obtain ⟨view, inHosts, rfl⟩ := List.mem_map.mp member
    obtain ⟨row, shown⟩ := shown_of_mem listed inHosts
    exact ⟨row, shown.holds⟩
  · rintro ⟨row, holds⟩
    obtain ⟨view, inHosts, rfl, _⟩ := exists_view listed holds
    exact List.mem_map_of_mem inHosts

/-- Libraries that hold the same hosts at other places list them so. -/
theorem listed_perm_of_holds {old new : List HostView} (place : HostRecord → HostRecord)
    (listed : listHosts P state = .ok old) (listed' : listHosts P state' = .ok new)
    (forth : ∀ host row, Holds P state host row → ∃ row', Holds P state' (place host) row')
    (back : ∀ host row, Holds P state' host row → ∃ host₀ row₀, Holds P state host₀ row₀ ∧ place host₀ = host)
    (injective : ∀ host row other row', Holds P state host row → Holds P state other row' →
      place host = place other → host = other) :
    (new.map (·.host)).Perm ((old.map (·.host)).map place) := by
  rw [List.perm_ext_iff_of_nodup (listed_nodup listed')]
  · intro host
    rw [mem_listed listed', List.mem_map]
    constructor
    · rintro ⟨row, holds⟩
      obtain ⟨before, oldRow, oldHolds, same⟩ := back host row holds
      exact ⟨before, (mem_listed listed).mpr ⟨oldRow, oldHolds⟩, same⟩
    · rintro ⟨before, member, rfl⟩
      obtain ⟨row, holds⟩ := (mem_listed listed).mp member
      exact forth before row holds
  · refine List.Nodup.map_on ?_ (listed_nodup listed)
    intro host member other member' same
    obtain ⟨row, holds⟩ := (mem_listed listed).mp member
    obtain ⟨row', holds'⟩ := (mem_listed listed).mp member'
    exact injective host row other row' holds holds' same

theorem not_live_of_tombstone {record : Record} {scope : HostScope} {id : String}
    (decodes : decodeHost P record scope = .ok (.Tombstone id)) : record.deleted = true := by
  rw [decodeHost, Result.check_eq_ok, Result.check_eq_ok] at decodes
  obtain ⟨_, _, rest⟩ := decodes
  split at rest
  · assumption
  · rw [Result.check_eq_ok] at rest
    obtain ⟨_, payload, _, rest⟩ := rest.imp_right Result.bind_eq_ok.mp
    rw [Result.check_eq_ok] at rest
    cases rest.2

/-- A live host row of a library that can be read is a host. -/
theorem holds_of_live {hosts : List HostView} (listed : listHosts P state = .ok hosts) {scope : HostScope}
    {id : String} {row : LocalRecord} (readable : scope ∈ readableScopes state)
    (held : (state.hostRecords scope)[recordKey .Host id]? = some row) (live : row.record.deleted = false) :
    ∃ host, host.id = id ∧ host.scope = scope ∧ Holds P state host row := by
  have rows := snapshot_isOk_iff.mp ((listHosts_isOk (P := P)).symm.trans (Result.isOk_iff.mpr ⟨_, listed⟩))
  have rowReadable := rows.hosts scope readable _ _ held
  obtain ⟨kind, id_eq⟩ := recordKey_injective rowReadable.cached.key
  obtain ⟨decoded, decodes⟩ := Result.isOk_iff.mp (rowReadable.decodes (by simp [← kind]))
  cases decoded with
  | Tombstone id =>
    rw [not_live_of_tombstone decodes] at live
    cases live
  | Live host =>
    obtain ⟨_, _, named, placed, _⟩ := decodeHost_live decodes
    rw [← id_eq] at named
    refine ⟨host, named, placed, ?_, ?_, ?_⟩
    · rw [placed]
      exact readable
    · rw [placed, named]
      exact held
    · rw [placed]
      exact decodes

/-! ## What resolving depends on -/

theorem ancestorLoop_congr {scope : HostScope} (same : ∀ id, group state' scope id = group state scope id)
    (fuel : Nat) (path : List GroupRecord) (seen : List String) (id : Option String) :
    ancestorLoop state' scope fuel path seen id = ancestorLoop state scope fuel path seen id := by
  induction fuel generalizing path seen id with
  | zero => cases id <;> rfl
  | succ fuel ih =>
    cases id with
    | none => rfl
    | some id => simp only [ancestorLoop, same, ih]

theorem ancestorPath_congr {scope : HostScope} (same : ∀ id, group state' scope id = group state scope id)
    (id : Option String) : ancestorPath state' scope id = ancestorPath state scope id :=
  ancestorLoop_congr same _ _ _ _

theorem resolveEffective_congr {host : HostRecord}
    (same : ∀ id, group state' host.scope id = group state host.scope id) :
    resolveEffective P state' host = resolveEffective P state host := by
  simp only [resolveEffective, ancestorPath_congr same]

theorem effectiveOf_congr {host : HostRecord}
    (same : ∀ id, group state' host.scope id = group state host.scope id) :
    effectiveOf P state' host = effectiveOf P state host := by
  simp only [effectiveOf, resolveEffective_congr same]

/-- A group that is found is the live row of its scope. -/
theorem group_eq_ok {scope : HostScope} {id : String} {found : GroupRecord}
    (read : group state scope id = .ok found) :
    scope ∈ readableScopes state ∧ ∃ row, (state.groupRows scope)[recordKey .Group id]? = some row ∧
      decodeGroup row.record scope = .ok (.Live found) := by
  obtain ⟨rows, section_, read⟩ := Result.bind_eq_ok.mp read
  have here : scope ∈ readableScopes state ∧ rows = state.groupRows scope := by
    cases scope with
    | «Local» => exact ⟨List.mem_cons_self, (Except.ok.inj section_).symm⟩
    | Space spaceId =>
      simp only [groupRecords] at section_
      split at section_
      · rename_i space selected
        obtain ⟨found, open_⟩ := Option.filter_eq_some_iff.mp selected
        cases section_
        refine ⟨mem_readableScopes_space.mpr ⟨space, found, by simpa using open_⟩, ?_⟩
        simp [SyncStateV3.groupRows, SyncStateV3.spaceRecords, found]
      · cases section_
  obtain ⟨readable, rfl⟩ := here
  refine ⟨readable, ?_⟩
  rw [Result.check_eq_ok] at read
  obtain ⟨_, read⟩ := read
  split at read
  · cases read
  · rename_i row held
    rw [Result.check_eq_ok] at read
    obtain ⟨_, read⟩ := read
    obtain ⟨decoded, decodes, read⟩ := Result.bind_eq_ok.mp read
    cases decoded with
    | Tombstone id => cases read
    | Live live =>
      cases read
      exact ⟨row, held, Result.mapError_eq_ok.mp decodes⟩

/-- Groups that are found on both sides carry the same settings. -/
def SameSettings (state : SyncStateV3) (scope : HostScope) (state' : SyncStateV3) (scope' : HostScope) :
    Prop :=
  ∀ id found found', group state scope id = .ok found → group state' scope' id = .ok found' →
    found'.payload = found.payload

theorem ancestorLoop_settings {scope scope' : HostScope} (same : SameSettings state scope state' scope')
    {fuel : Nat} {path path' out out' : List GroupRecord} {seen : List String} {id : Option String}
    (start : path'.map (·.payload) = path.map (·.payload))
    (walked : ancestorLoop state scope fuel path seen id = .ok out)
    (walked' : ancestorLoop state' scope' fuel path' seen id = .ok out') :
    out'.map (·.payload) = out.map (·.payload) := by
  induction fuel generalizing path path' seen id with
  | zero =>
    cases id with
    | none =>
      cases walked
      cases walked'
      rw [List.map_reverse, List.map_reverse, start]
    | some id => cases walked
  | succ fuel ih =>
    cases id with
    | none =>
      cases walked
      cases walked'
      rw [List.map_reverse, List.map_reverse, start]
    | some id =>
      rw [ancestorLoop] at walked walked'
      split at walked
      · cases walked
      · split at walked'
        · cases walked'
        · obtain ⟨found, read, walked⟩ := Result.bind_eq_ok.mp walked
          obtain ⟨found', read', walked'⟩ := Result.bind_eq_ok.mp walked'
          have payload := same id found found' read read'
          rw [payload] at walked'
          exact ih (by simp [payload, start]) walked walked'

/-- The same scopes can be read, with the same retained envelopes. -/
structure SameScopes (state state' : SyncStateV3) : Prop where
  readable : readableScopes state' = readableScopes state
  sealed : ∀ scope, scopeSealed state' scope = scopeSealed state scope

theorem SameScopes.refl (state : SyncStateV3) : SameScopes state state := ⟨rfl, fun _ => rfl⟩

theorem SameScopes.trans {first second third : SyncStateV3} (left : SameScopes first second)
    (right : SameScopes second third) : SameScopes first third :=
  ⟨right.readable.trans left.readable, fun scope => (right.sealed scope).trans (left.sealed scope)⟩

/-- Reading a group of a readable scope needs its row and the scope's retained envelopes. -/
theorem SameScopes.group {scope : HostScope} (same : SameScopes state state')
    (readable : scope ∈ readableScopes state) {id : String}
    (rows : (state'.groupRows scope)[recordKey .Group id]? = (state.groupRows scope)[recordKey .Group id]?) :
    group state' scope id = group state scope id := by
  have readable' : scope ∈ readableScopes state' := same.readable ▸ readable
  simp only [Sync.group, groupRecords_of_readable readable, groupRecords_of_readable readable',
    Result.ok_bind, same.sealed, rows]

/-- Nothing a host inherits has changed. -/
structure SameGroups (state state' : SyncStateV3) : Prop extends SameScopes state state' where
  groups : ∀ scope id,
    (state'.groupRows scope)[recordKey .Group id]? = (state.groupRows scope)[recordKey .Group id]?

theorem SameGroups.refl (state : SyncStateV3) : SameGroups state state :=
  ⟨.refl state, fun _ _ => rfl⟩

theorem SameGroups.trans {first second third : SyncStateV3} (left : SameGroups first second)
    (right : SameGroups second third) : SameGroups first third :=
  ⟨left.toSameScopes.trans right.toSameScopes,
    fun scope id => (right.groups scope id).trans (left.groups scope id)⟩

theorem SameGroups.resolveEffective {host : HostRecord} (same : SameGroups state state')
    (readable : host.scope ∈ readableScopes state) :
    resolveEffective P state' host = resolveEffective P state host :=
  resolveEffective_congr fun id => same.group readable (same.groups host.scope id)

theorem SameGroups.effectiveOf {host : HostRecord} (same : SameGroups state state')
    (readable : host.scope ∈ readableScopes state) :
    effectiveOf P state' host = effectiveOf P state host :=
  effectiveOf_congr fun id => same.group readable (same.groups host.scope id)

/-! ## Frames of the writers -/

theorem insert_spaces_readable {spaceId : String} {space space' : SpaceStateV3}
    (found : state.spaces[spaceId]? = some space) (selected : space'.selected = space.selected)
    (missing : space'.missing = space.missing) :
    readableScopes { state with spaces := state.spaces.insert spaceId space' } = readableScopes state := by
  have open_ (entry : String × SpaceStateV3) (member : entry ∈ state.spaces.toList) :
      (if entry.1 = spaceId then space' else entry.2).selected = entry.2.selected ∧
        (if entry.1 = spaceId then space' else entry.2).missing = entry.2.missing := by
    split
    · rename_i same
      have here := BTreeMap.mem_toList.mp member
      rw [same, found] at here
      cases here
      exact ⟨selected, missing⟩
    · exact ⟨rfl, rfl⟩
  simp only [readableScopes, BTreeMap.toList_insert_of_get? space' found, List.filter_map, List.map_map]
  congr 1
  have filtered := List.filter_congr (p := fun entry : String × SpaceStateV3 =>
    (if entry.1 = spaceId then space' else entry.2).selected &&
      !(if entry.1 = spaceId then space' else entry.2).missing)
    (q := fun entry => entry.2.selected && !entry.2.missing) fun entry member => by
      rw [(open_ entry member).1, (open_ entry member).2]
  exact congrArg _ filtered

theorem SameScopes.setSpaceRow {spaceId key : String} {row : LocalRecord} :
    SameScopes state (state.setSpaceRow spaceId key row) := by
  unfold SyncStateV3.setSpaceRow
  cases found : state.spaces[spaceId]? with
  | none => exact .refl state
  | some space =>
    refine ⟨insert_spaces_readable found rfl rfl, fun scope => ?_⟩
    cases scope with
    | «Local» => rfl
    | Space id =>
      by_cases same : spaceId = id
      · subst same
        simp [scopeSealed, SyncStateV3.spaceSealed, found]
      · simp [scopeSealed, SyncStateV3.spaceSealed, BTreeMap.get?_insert_ne _ _ same]

theorem SameScopes.setHostRow {scope : HostScope} {key : String} {row : LocalRecord} :
    SameScopes state (state.setHostRow scope key row) := by
  cases scope with
  | «Local» => exact ⟨rfl, fun scope => by cases scope <;> rfl⟩
  | Space spaceId => exact .setSpaceRow

theorem SameScopes.setGroupRow {scope : HostScope} {key : String} {row : LocalRecord} :
    SameScopes state (state.setGroupRow scope key row) := by
  cases scope with
  | «Local» => exact ⟨rfl, fun scope => by cases scope <;> rfl⟩
  | Space spaceId => exact .setSpaceRow

theorem host_key_ne_group_key (id id' : String) : recordKey .Host id ≠ recordKey .Group id' := by
  intro same
  cases (recordKey_injective same).1

/-- A host row is no group row. -/
theorem SameGroups.setHostRow {scope : HostScope} {id : String} {row : LocalRecord} :
    SameGroups state (state.setHostRow scope (recordKey .Host id) row) := by
  refine ⟨.setHostRow, fun scope' id' => ?_⟩
  cases scope with
  | «Local» => cases scope' <;> rfl
  | Space spaceId =>
    cases scope' with
    | «Local» =>
      simp only [SyncStateV3.setHostRow, SyncStateV3.setSpaceRow, SyncStateV3.groupRows]
      split <;> rfl
    | Space other =>
      apply spaceRecords_setSpaceRow_ne
      intro same
      exact host_key_ne_group_key id id' (Prod.mk.inj same).2

/-- A group row is no host row. -/
theorem hostRecords_setGroupRow {scope scope' : HostScope} {id id' : String} {row : LocalRecord} :
    ((state.setGroupRow scope (recordKey .Group id) row).hostRecords scope')[recordKey .Host id']? =
      (state.hostRecords scope')[recordKey .Host id']? := by
  cases scope with
  | «Local» => cases scope' <;> rfl
  | Space spaceId =>
    cases scope' with
    | «Local» =>
      simp only [SyncStateV3.setGroupRow, SyncStateV3.setSpaceRow, SyncStateV3.hostRecords]
      split <;> rfl
    | Space other =>
      apply spaceRecords_setSpaceRow_ne
      intro same
      exact host_key_ne_group_key id' id (Prod.mk.inj same).2.symm

theorem hostRecords_setHostRow_readable {scope : HostScope} {key : String} {row : LocalRecord}
    (readable : scope ∈ readableScopes state) :
    ((state.setHostRow scope key row).hostRecords scope)[key]? = some row := by
  cases scope with
  | «Local» => exact BTreeMap.get?_insert_self _ _ _
  | Space spaceId =>
    obtain ⟨space, found, _⟩ := mem_readableScopes_space.mp readable
    exact spaceRecords_setSpaceRow_self found

/-- A host row of the library after a host row was written: the written one, or one from before. -/
theorem Holds.of_setHostRow {scope : HostScope} {id : String} {row row' : LocalRecord} {host : HostRecord}
    (holds : Holds P (state.setHostRow scope (recordKey .Host id) row) host row') :
    (host.scope = scope ∧ host.id = id ∧ row' = row) ∨ Holds P state host row' := by
  have readable : host.scope ∈ readableScopes state := by
    rw [← SameScopes.setHostRow.readable]
    exact holds.scope
  have held := holds.held
  by_cases same : (scope, recordKey .Host id) = (host.scope, recordKey .Host host.id)
  · obtain ⟨rfl, keys⟩ := Prod.mk.inj same
    obtain rfl : id = host.id := (recordKey_injective keys).2
    rw [hostRecords_setHostRow_readable readable] at held
    cases held
    exact .inl ⟨rfl, rfl, rfl⟩
  · rw [hostRecords_setHostRow_ne same] at held
    exact .inr ⟨readable, held, holds.decodes⟩

/-! ## What inheritance leaves alone -/

section Inheritance
variable (path : List GroupRecord)

theorem inheritField_hostname (p : HostPayload) (field : InheritedField) :
    (inheritField path p field).1.hostname = p.hostname := by
  cases field <;> simp only [inheritField] <;> split <;> rfl

theorem inheritField_hostKey (p : HostPayload) (field : InheritedField) :
    (inheritField path p field).1.hostKey = p.hostKey := by
  cases field <;> simp only [inheritField] <;> split <;> rfl

theorem inheritField_port (p : HostPayload) {field : InheritedField} (other : field ≠ .Port) :
    (inheritField path p field).1.port = p.port := by
  cases field <;> simp only [inheritField] <;> first | contradiction | (split <;> rfl)

/-- The pin takes no part in inheritance. -/
theorem inheritField_withKey (p : HostPayload) (key : Option StoredHostKey) (field : InheritedField) :
    inheritField path { p with hostKey := key } field =
      ({ (inheritField path p field).1 with hostKey := key }, (inheritField path p field).2) := by
  cases field <;> simp only [inheritField] <;> split <;> rfl

/-- The settings are inherited one field after the other. -/
theorem inheritFields_payload (host : HostRecord) : (inheritFields path host).payload =
    host.payload.inherit.foldl (fun p field => (inheritField path p field).1) host.payload := by
  unfold inheritFields
  generalize host.payload.inherit = fields
  generalize host.payload = p
  generalize (∅ : BTreeMap String) = sources
  induction fields generalizing p sources with
  | nil => rfl
  | cons field rest ih => exact ih _ _

/-- A fact about the payload that every inherited field keeps. -/
theorem inheritFields_induction {host : HostRecord} (holds : HostPayload → Prop)
    (start : holds host.payload)
    (step : ∀ p, holds p → ∀ field ∈ host.payload.inherit, holds (inheritField path p field).1) :
    holds (inheritFields path host).payload := by
  rw [inheritFields_payload]
  generalize host.payload.inherit = fields at step
  generalize host.payload = p at start
  induction fields generalizing p with
  | nil => exact start
  | cons field rest ih =>
    apply ih
    · intro q kept other member
      exact step q kept other (List.mem_cons_of_mem _ member)
    · exact step p start field List.mem_cons_self

theorem inheritFields_hostname (host : HostRecord) :
    (inheritFields path host).payload.hostname = host.payload.hostname :=
  inheritFields_induction path (·.hostname = host.payload.hostname) rfl
    fun p kept field _ => (inheritField_hostname path p field).trans kept

theorem inheritFields_hostKey (host : HostRecord) :
    (inheritFields path host).payload.hostKey = host.payload.hostKey :=
  inheritFields_induction path (·.hostKey = host.payload.hostKey) rfl
    fun p kept field _ => (inheritField_hostKey path p field).trans kept

theorem inheritFields_port {host : HostRecord} (own : .Port ∉ host.payload.inherit) :
    (inheritFields path host).payload.port = host.payload.port := by
  refine inheritFields_induction path (·.port = host.payload.port) rfl fun p kept field member => ?_
  have other : field ≠ .Port := by
    rintro rfl
    exact own member
  exact (inheritField_port path p other).trans kept

theorem nearestDefault_settings {α : Type} {path path' : List GroupRecord}
    (same : path'.map (·.payload) = path.map (·.payload)) (field : GroupDefaults → Option α) :
    (nearestDefault path' field).map Prod.snd = (nearestDefault path field).map Prod.snd := by
  have along (path : List GroupRecord) : (nearestDefault path field).map Prod.snd =
      (path.map (·.payload)).findSome? fun p => field p.defaults := by
    unfold nearestDefault
    induction path with
    | nil => rfl
    | cons group rest ih =>
      cases set : field group.payload.defaults <;> simp [set, ih]
  rw [along, along, same]

/-- The setting taken from the nearest default depends on its value alone. -/
theorem taken_settings {α : Type} {near near' : Option (String × α)} (equal : near'.map Prod.snd = near.map Prod.snd)
    (set : α → HostPayload) (default : α) :
    (match near' with
      | some (id, value) => (set value, id)
      | none => (set default, "default")).1 =
    (match near with
      | some (id, value) => (set value, id)
      | none => (set default, "default")).1 := by
  cases near <;> cases near' <;> simp_all

/-- What is inherited depends on the settings along the path, not on where the groups are. -/
theorem inheritField_settings {path path' : List GroupRecord}
    (same : path'.map (·.payload) = path.map (·.payload)) (p : HostPayload) (field : InheritedField) :
    (inheritField path' p field).1 = (inheritField path p field).1 := by
  cases field <;> exact taken_settings (nearestDefault_settings same _) _ _

theorem inheritFields_settings {path path' : List GroupRecord} {host host' : HostRecord}
    (same : path'.map (·.payload) = path.map (·.payload)) (payload : host'.payload = host.payload) :
    (inheritFields path' host').payload = (inheritFields path host).payload := by
  rw [inheritFields_payload, inheritFields_payload, payload]
  simp only [inheritField_settings same]

theorem inheritFields_withKey (host : HostRecord) (key : Option StoredHostKey) :
    (inheritFields path { host with payload := { host.payload with hostKey := key } }).payload =
      { (inheritFields path host).payload with hostKey := key } := by
  rw [inheritFields_payload, inheritFields_payload]
  generalize host.payload.inherit = fields
  generalize host.payload = p
  induction fields generalizing p with
  | nil => rfl
  | cons field rest ih =>
    simp only [List.foldl_cons, inheritField_withKey]
    exact ih _

end Inheritance

theorem resolveEffective_eq_ok {host : HostRecord} {effective : EffectiveHost} :
    resolveEffective P state host = .ok effective ↔
      ∃ path, ancestorPath state host.scope host.payload.groupId = .ok path ∧
        effective = inheritFields path host ∧
        validateHost P { host with payload := effective.payload } = .ok () := by
  rw [resolveEffective, Result.bind_eq_ok]
  apply exists_congr
  intro path
  rw [Result.check_eq_ok, Validated.toRepo, Result.mapError_eq_ok]
  constructor
  · rintro ⟨found, valid, same⟩
    cases same
    exact ⟨found, rfl, valid⟩
  · rintro ⟨found, rfl, valid⟩
    exact ⟨found, valid, rfl⟩

theorem effectiveOf_cases (P : Primitives) (state : SyncStateV3) (host : HostRecord) :
    effectiveOf P state host = host.payload ∨
      ∃ path, effectiveOf P state host = (inheritFields path host).payload := by
  unfold effectiveOf
  cases resolved : resolveEffective P state host with
  | error error => exact .inl rfl
  | ok effective =>
    obtain ⟨path, _, rfl, _⟩ := resolveEffective_eq_ok.mp resolved
    exact .inr ⟨path, rfl⟩

@[simp] theorem effectiveOf_hostname (host : HostRecord) :
    (effectiveOf P state host).hostname = host.payload.hostname := by
  obtain own | ⟨path, inherited⟩ := effectiveOf_cases P state host
  · rw [own]
  · rw [inherited, inheritFields_hostname]

@[simp] theorem effectiveOf_hostKey (host : HostRecord) :
    (effectiveOf P state host).hostKey = host.payload.hostKey := by
  obtain own | ⟨path, inherited⟩ := effectiveOf_cases P state host
  · rw [own]
  · rw [inherited, inheritFields_hostKey]

theorem effectiveOf_port {host : HostRecord} (own : .Port ∉ host.payload.inherit) :
    (effectiveOf P state host).port = host.payload.port := by
  obtain raw | ⟨path, inherited⟩ := effectiveOf_cases P state host
  · rw [raw]
  · rw [inherited, inheritFields_port path own]

theorem effectiveOf_eq {host : HostRecord} {effective : EffectiveHost}
    (resolved : resolveEffective P state host = .ok effective) :
    effectiveOf P state host = effective.payload := by
  simp only [effectiveOf, resolved]

/-- A host that resolves on both sides, from groups with the same settings, has the same settings. -/
theorem effectiveOf_settings {host host' : HostRecord} {effective effective' : EffectiveHost}
    (same : SameSettings state host.scope state' host'.scope) (payload : host'.payload = host.payload)
    (resolved : resolveEffective P state host = .ok effective)
    (resolved' : resolveEffective P state' host' = .ok effective') :
    effectiveOf P state' host' = effectiveOf P state host := by
  rw [effectiveOf_eq resolved, effectiveOf_eq resolved']
  obtain ⟨path, walked, rfl, _⟩ := resolveEffective_eq_ok.mp resolved
  obtain ⟨path', walked', rfl, _⟩ := resolveEffective_eq_ok.mp resolved'
  rw [payload] at walked'
  exact inheritFields_settings (ancestorLoop_settings same rfl walked walked') payload

/-! ## Changing only the pin -/

/-- A live host payload is an object: the format number is read by name. -/
theorem decodeHost_object {record : Record} {scope : HostScope} {host : HostRecord}
    (decodes : decodeHost P record scope = .ok (.Live host)) : ∃ fields, record.payload = .obj fields := by
  have live := (decodeHost_live decodes).2.1
  rw [decodeHost, Result.check_eq_ok, Result.check_eq_ok] at decodes
  obtain ⟨_, _, rest⟩ := decodes
  simp only [live, Bool.false_eq_true, if_false] at rest
  rw [Result.check_eq_ok, Result.refuse_eq_ok] at rest
  cases object : record.payload with
  | obj fields => exact ⟨fields, rfl⟩
  | _ => simp [object, Json.get] at rest

/-- Assigning `null` to the pin leaves no pin. -/
theorem unpinned_of_dropped {record : Record} {scope : HostScope} {host : HostRecord} {json : Json}
    (dropped : record.payload = json.set "host_key" .null)
    (decodes : decodeHost P record scope = .ok (.Live host)) : host.payload.hostKey = none := by
  obtain ⟨fields, object⟩ := decodeHost_object decodes
  obtain ⟨_, _, _, _, read, _⟩ := decodeHost_live decodes
  -- assigning once more changes nothing, so the payload is one that was assigned to
  have again : record.payload.set "host_key" .null = record.payload := by
    rw [dropped]
    cases json with
    | obj fields => simp only [Json.set, Json.setField_setField]
    | null => rfl
    | _ => simp only [Json.set]
  rw [object] at read again
  have assigned := HostPayload.ofJson_dropPin read
  rw [again, read] at assigned
  rw [Option.some.inj assigned]

theorem validateHost_pin {host : HostRecord} {pin : StoredHostKey} (valid : validateHost P host = .ok ())
    (pinned : host.payload.hostKey = some pin) : validatePin P host.id pin = .ok () := by
  simp only [validateHost, validateHostShape, Result.check_eq_ok] at valid
  exact Result.forSome_eq_ok.mp valid.1.2.2.2.2.2.2.2.2.2.2.2.2.2 pin pinned

theorem validateHost_withKey {host : HostRecord} {key : Option StoredHostKey}
    (valid : validateHost P host = .ok ())
    (pinned : ∀ pin, key = some pin → validatePin P host.id pin = .ok ()) :
    validateHost P { host with payload := { host.payload with hostKey := key } } = .ok () := by
  simp only [validateHost, validateHostShape, Result.check_eq_ok, Result.forSome_eq_ok] at valid ⊢
  tauto

theorem resolveEffective_withKey {host : HostRecord} {key : Option StoredHostKey}
    {effective : EffectiveHost} (resolved : resolveEffective P state host = .ok effective)
    (pinned : ∀ pin, key = some pin → validatePin P host.id pin = .ok ()) :
    ∃ keyed, resolveEffective P state { host with payload := { host.payload with hostKey := key } } = .ok keyed ∧
      keyed.payload = { effective.payload with hostKey := key } := by
  obtain ⟨path, found, rfl, valid⟩ := resolveEffective_eq_ok.mp resolved
  have same := inheritFields_withKey path host key
  refine ⟨_, resolveEffective_eq_ok.mpr ⟨path, found, rfl, ?_⟩, same⟩
  rw [same]
  exact validateHost_withKey valid pinned

theorem effectiveOf_withKey {host : HostRecord} {key : Option StoredHostKey} {effective : EffectiveHost}
    (resolved : resolveEffective P state host = .ok effective)
    (pinned : ∀ pin, key = some pin → validatePin P host.id pin = .ok ()) :
    effectiveOf P state { host with payload := { host.payload with hostKey := key } } =
      { effective.payload with hostKey := key } := by
  obtain ⟨keyed, resolved', payload⟩ := resolveEffective_withKey resolved pinned
  rw [effectiveOf_eq resolved', payload]

end Sshelter.Sync
