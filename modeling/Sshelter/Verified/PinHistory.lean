import Sshelter.Verified.Inclusion

/-! # The history of a pin

Runs of local edits on one device, from a library without hosts.  Every pin that is
still there was stored by `pin_host_key`, for the host name and port its host has now.
Besides the pins themselves an invariant of the runs says that every host finds its
groups and that no host lies in a space that is not shown.
-/

namespace Sshelter.Sync

variable {P : Primitives} {state next : SyncStateV3} {id : String} {now : Nat}

/-! ## Where live hosts come from -/

/-- A live host row of `next` was live at its place before, or its place can be read. -/
structure LiveFrom (state next : SyncStateV3) : Prop extends SameScopes state next where
  rows : ∀ scope id row, (next.hostRecords scope)[recordKey .Host id]? = some row →
    row.record.deleted = false → scope ∈ readableScopes state ∨
      ∃ old, (state.hostRecords scope)[recordKey .Host id]? = some old ∧ old.record.deleted = false

theorem LiveFrom.refl (state : SyncStateV3) : LiveFrom state state :=
  ⟨.refl state, fun _ _ row held live => .inr ⟨row, held, live⟩⟩

theorem LiveFrom.trans {first second third : SyncStateV3} (left : LiveFrom first second)
    (right : LiveFrom second third) : LiveFrom first third := by
  refine ⟨left.toSameScopes.trans right.toSameScopes, fun scope id row held live => ?_⟩
  obtain readable | ⟨old, held, live⟩ := right.rows scope id row held live
  · exact .inl (left.readable ▸ readable)
  · exact left.rows scope id old held live

theorem SameHosts.liveFrom {state' : SyncStateV3} (same : SameHosts state state') : LiveFrom state state' :=
  ⟨same.toSameScopes, fun scope id row held live => .inr ⟨row, by rw [← same.hosts]; exact held, live⟩⟩

/-- Writing a host row is fine in a readable scope, or over a row with the same deletion mark. -/
theorem LiveFrom.setHostRow {scope : HostScope} {row : LocalRecord}
    (placed : scope ∈ readableScopes state ∨ ∃ old,
      (state.hostRecords scope)[recordKey .Host id]? = some old ∧ row.record.deleted = old.record.deleted) :
    LiveFrom state (state.setHostRow scope (recordKey .Host id) row) := by
  refine ⟨.setHostRow, fun scope' id' row' held live => ?_⟩
  by_cases same : (scope, recordKey .Host id) = (scope', recordKey .Host id')
  · obtain ⟨rfl, keys⟩ := Prod.mk.inj same
    obtain rfl : id = id' := (recordKey_injective keys).2
    obtain readable | ⟨old, before, mark⟩ := placed
    · exact .inl readable
    · rw [hostRecords_setHostRow_self before] at held
      cases held
      exact .inr ⟨old, before, mark ▸ live⟩
  · rw [hostRecords_setHostRow_ne same] at held
    exact .inr ⟨row', held, live⟩

theorem Rewrites.liveFrom {scope : HostScope} {payload : Json} {deleted : Bool} {previous : LocalRecord}
    {record : Record} (rewrites : Rewrites P state scope id payload deleted now previous record next)
    (readable : scope ∈ readableScopes state) : LiveFrom state next := by
  rw [rewrites.written]
  exact .setHostRow (.inl readable)

theorem checkedHost_readable {expected : RecordRevision} {view : HostView}
    (checked : checkedHost P state id expected = .ok view) : view.host.scope ∈ readableScopes state := by
  obtain ⟨_, _, _, _, shown, _⟩ := getHost_shown (checkedHost_cases checked).1
  exact shown.holds.scope

theorem clearPin_liveFrom {old : List HostView} {view : HostView}
    (cleared : clearPin old now state view = .ok next) : LiveFrom state next := by
  obtain ⟨rfl, _⟩ | ⟨row, record, _, held, _, _, _, mark, _, _, rfl⟩ := clearPin_writes cleared
  · exact .refl next
  · exact .setHostRow (.inr ⟨row, held, mark⟩)

theorem foldlM_liveFrom {α : Type} {step : SyncStateV3 → α → Repo SyncStateV3} {items : List α}
    (each : ∀ state item next, step state item = .ok next → LiveFrom state next)
    (ran : items.foldlM step state = .ok next) : LiveFrom state next :=
  Result.foldlM_invariant (fun _ => LiveFrom state) (.refl state)
    (fun _ current item _ after _ live step => live.trans (each current item after step)) ran

theorem finish_liveFrom {before : SyncStateV3} {scope : HostScope}
    (finished : finish P before state scope now = .ok next) : LiveFrom state next := by
  obtain ⟨_, _, _, _, _, _, cleared⟩ := finish_cases finished
  exact foldlM_liveFrom (fun _ _ _ => clearPin_liveFrom) cleared

theorem moveHost_liveFrom {expected : RecordRevision} {destination : HostScope}
    (moved : moveHost P state id expected destination now = .ok next) : LiveFrom state next := by
  obtain ⟨view, checked, writable, ⟨_, rfl⟩ | ⟨source, effective, record, seq, moves⟩⟩ := moveHost_moves moved
  · exact .refl next
  · rw [moves.written]
    refine (LiveFrom.setHostRow (.inl (checkedHost_readable checked))).trans (.setHostRow (.inl ?_))
    rw [SameScopes.setHostRow.readable]
    exact readable_of_ensureScope writable

theorem includeExisting_liveFrom {pendingValid : PendingAccountOperation → Bool} {destination : String}
    {confirmed : Bool} {keys : Option ChainKeys}
    (ran : includeExisting P pendingValid state destination confirmed now keys = .ok next) :
    LiveFrom state next := by
  obtain ⟨_, rfl⟩ | includes := includeExisting_cases ran
  · exact .refl next
  refine ⟨includes.included.toSameScopes, fun scope id row held live => ?_⟩
  cases scope with
  | «Local» => exact .inl List.mem_cons_self
  | Space spaceId =>
    by_cases here : spaceId = destination
    · subst here
      exact .inl (readable_of_ensureScope includes.writable)
    · change (next.spaceRecords spaceId)[_]? = _ at held
      rw [includes.included.elsewhere spaceId here] at held
      exact .inr ⟨row, held, live⟩

/-! ## Clearing pins keeps every host resolving -/

theorem clearPins_resolve {old new : List HostView} (listed : listHosts P state = .ok new)
    (resolve : AllResolve P state) (cleared : new.foldlM (clearPin old now) state = .ok next) :
    AllResolve P next := by
  have both : SameGroups state next ∧ AllResolve P next := by
    refine Result.foldlM_invariant (fun _ current => SameGroups state current ∧ AllResolve P current)
      ⟨.refl state, resolve⟩ ?_ cleared
    rintro done current view rest after items ⟨groups, resolves⟩ step
    obtain ⟨rfl, _⟩ | ⟨row, record, _, _, written, _, _, _, _, _, rfl⟩ := clearPin_writes step
    · exact ⟨groups, resolves⟩
    refine ⟨groups.trans .setHostRow, fun host row' holds => ?_⟩
    have readable : host.scope ∈ readableScopes current := by
      rw [← SameScopes.setHostRow.readable]
      exact holds.scope
    rw [groupErrorOf, SameGroups.setHostRow.resolveEffective readable, ← groupErrorOf]
    obtain ⟨placed, sameId, rfl⟩ | before := holds.of_setHostRow
    · -- the rewritten host is the shown one without its pin
      have member : view ∈ new := by rw [items]; simp
      obtain ⟨shownRow, shown⟩ := shown_of_mem listed member
      obtain ⟨effective, resolved⟩ := resolves_of_groupError (resolve view.host shownRow shown.holds)
      have unpinned : ∀ pin, (none : Option StoredHostKey) = some pin →
          validatePin P view.host.id pin = .ok () := by simp
      obtain ⟨keyed, resolved', _⟩ := resolveEffective_withKey resolved unpinned
      rw [← host_of_written written holds.decodes placed sameId, ← groups.resolveEffective (groups.readable ▸ readable)] at resolved'
      exact groupErrorOf_eq_none resolved'
    · exact resolves host row' before
  exact both.2

theorem finish_resolve {before : SyncStateV3} {scope : HostScope} (resolve : AllResolve P before)
    (finished : finish P before state scope now = .ok next) : AllResolve P next := by
  obtain ⟨_, _, _, transition, _, listed, cleared⟩ := finish_cases finished
  exact clearPins_resolve listed (resolve.transition transition) cleared

/-! ## What every edit keeps -/

/-- An edit after which hosts resolve if they did, and none has gone out of sight. -/
structure Advances (P : Primitives) (state next : SyncStateV3) : Prop where
  resolve : AllResolve P state → AllResolve P next
  live : LiveFrom state next

theorem Advances.refl (state : SyncStateV3) : Advances P state state := ⟨id, .refl state⟩

/-- Every edit that leaves hosts and groups alone. -/
theorem Advances.of_same (same : SameHosts state next ∧ SameGroups state next) : Advances P state next := by
  obtain ⟨hosts, groups⟩ := same
  refine ⟨fun resolve host row holds => ?_, hosts.liveFrom⟩
  have before := hosts.holds holds
  rw [groupErrorOf, groups.resolveEffective before.scope, ← groupErrorOf]
  exact resolve host row before

theorem Rewrites.advances {scope : HostScope} {payload : Json} {deleted : Bool} {previous : LocalRecord}
    {record : Record} (rewrites : Rewrites P state scope id payload deleted now previous record next)
    (readable : scope ∈ readableScopes state) : Advances P state next :=
  ⟨fun resolve => resolve.transition rewrites.transition, rewrites.liveFrom readable⟩

theorem finish_advances {before : SyncStateV3} {scope : HostScope}
    (finished : finish P before state scope now = .ok next) (live : LiveFrom before state) :
    Advances P before next :=
  ⟨fun resolve => finish_resolve resolve finished, live.trans (finish_liveFrom finished)⟩

theorem updateHost_advances {expected : RecordRevision} {payload : HostPayload}
    (updated : updateHost P state id expected payload now = .ok next) : Advances P state next := by
  obtain ⟨_, _, checked, _, _, _, _, _, rewrites⟩ := updateHost_cases updated
  exact rewrites.advances (checkedHost_readable checked)

theorem moveHost_advances {expected : RecordRevision} {destination : HostScope}
    (moved : moveHost P state id expected destination now = .ok next) : Advances P state next := by
  refine ⟨fun resolve => ?_, moveHost_liveFrom moved⟩
  obtain ⟨_, _, _, ⟨_, rfl⟩ | ⟨_, _, _, _, moves⟩⟩ := moveHost_moves moved
  · exact resolve
  · exact resolve.transition moves.transition

theorem includeExisting_advances {pendingValid : PendingAccountOperation → Bool} {destination : String}
    {confirmed : Bool} {keys : Option ChainKeys}
    (ran : includeExisting P pendingValid state destination confirmed now keys = .ok next) :
    Advances P state next := by
  refine ⟨fun resolve => ?_, includeExisting_liveFrom ran⟩
  obtain ⟨_, rfl⟩ | includes := includeExisting_cases ran
  · exact resolve
  · exact resolve.transition includes.transition

theorem setGroupOrder_sections {expectedIds ids : List String} {expected : Option RecordRevision}
    (ordered : setGroupOrder state expectedIds expected ids now = .ok next) :
    SameHosts state next ∧ SameGroups state next := by
  obtain ⟨_, _, rfl | ⟨_, rfl⟩ | ⟨_, _, _, _, rfl⟩⟩ := setGroupOrder_cases ordered
  · exact sections_of_equal rfl rfl rfl
  · exact sections_of_equal rfl rfl rfl
  · exact sections_of_equal rfl rfl rfl

theorem renameKey_sections {expected : KeySlotPayload} {name : String}
    (renamed : renameKey P state id expected name now = .ok next) :
    SameHosts state next ∧ SameGroups state next := by
  have labelled (middle : SyncStateV3) (name : String) :
      (renameLocalKey middle id name).spaces = middle.spaces ∧
        (renameLocalKey middle id name).local.hosts = middle.local.hosts ∧
        (renameLocalKey middle id name).local.groups = middle.local.groups := by
    unfold renameLocalKey
    split <;> exact ⟨rfl, rfl, rfl⟩
  obtain rfl | ⟨_, _, middle, rfl, rfl | ⟨_, _, _, _, _, _, _, rfl⟩⟩ := renameKey_cases renamed
  · exact sections_of_equal rfl rfl rfl
  · exact sections_of_equal (labelled _ _).1 (labelled _ _).2.1 (labelled _ _).2.2
  · exact sections_of_equal (labelled _ _).1 (labelled _ _).2.1 (labelled _ _).2.2

theorem localEdit_advances {token : RepositorySnapshot → String} {edit : LocalEdit}
    (ran : edit.run P token state now = .ok next) : Advances P state next := by
  cases edit with
  | createHost id scope payload =>
    obtain ⟨record, creates⟩ := createHost_cases ran
    refine ⟨fun resolve => resolve.transition creates.transition, ?_⟩
    rw [creates.written]
    exact .setHostRow (.inl (readable_of_ensureScope creates.writable))
  | updateHost id expected payload => exact updateHost_advances ran
  | deleteHost id expected =>
    obtain ⟨view, checked, _, _, rewrites⟩ := deleteHost_cases ran
    exact rewrites.advances (checkedHost_readable checked)
  | moveHost id expected destination => exact moveHost_advances ran
  | pinHostKey id endpoint previous candidate =>
    obtain ⟨view, found, _, _, _, _, ⟨_, rfl⟩ | ⟨_, _, _, _, rewrites⟩⟩ := pinHostKey_cases ran
    · exact .refl next
    · obtain ⟨_, _, _, _, shown, _⟩ := getHost_shown found
      exact rewrites.advances shown.holds.scope
  | forgetHostKey id expected endpoint pin =>
    obtain ⟨view, checked, _, _, rewrites⟩ := forgetHostKey_cases ran
    exact rewrites.advances (checkedHost_readable checked)
  | createGroup id scope payload confirmed =>
    obtain ⟨candidate, created, finished⟩ := Result.bind_eq_ok.mp ran
    exact finish_advances finished (createdGroup_sections created).liveFrom
  | updateGroup id expected payload =>
    obtain ⟨⟨scope, candidate⟩, updated, finished⟩ := Result.bind_eq_ok.mp ran
    exact finish_advances finished (updatedGroup_sections updated).liveFrom
  | deleteGroup id expected reviewed =>
    obtain ⟨⟨scope, candidate⟩, deleted, finished⟩ := Result.bind_eq_ok.mp ran
    refine finish_advances finished ?_
    apply deletedGroups_induction (LiveFrom state) deleted (.refl state)
    · intro current id expected payload after live updated
      exact live.trans (updateHost_advances updated).live
    · intro current after live same
      exact live.trans same.liveFrom
  | setGroupOrder expectedIds expected ids => exact .of_same (setGroupOrder_sections ran)
  | renameKey id expected name => exact .of_same (renameKey_sections ran)

/-! ## Runs -/

/-- The edits of one device, with those of its library. -/
inductive LibraryEdit where
  | edit (edit : LocalEdit)
  | updateHost (id : String) (expected : RecordRevision) (payload : HostPayload) (confirmed : Bool)
  | setHostGroup (id : String) (expected : RecordRevision) (groupId : Option String)
  | includeExisting (destination : String) (confirmed : Bool) (keys : Option ChainKeys)

namespace LibraryEdit

def run (P : Primitives) (token : RepositorySnapshot → String)
    (pendingValid : PendingAccountOperation → Bool) (state : SyncStateV3) (now : Nat) :
    LibraryEdit → Repo SyncStateV3
  | edit change => change.run P token state now
  | updateHost id expected payload confirmed => updateLibraryHost P state id expected payload confirmed now
  | setHostGroup id expected groupId => Sync.setHostGroup P state id expected groupId now
  | includeExisting destination confirmed keys =>
    Sync.includeExisting P pendingValid state destination confirmed now keys

/-- What the edit confirms: only `pin_host_key` stores a pin, unless the host has it already. -/
def confirms (P : Primitives) (state : SyncStateV3) (now : Nat) : LibraryEdit → List Confirmation
  | edit (.pinHostKey id endpoint _ candidate) =>
    match getHost P state id with
    | .ok view =>
      if view.host.payload.hostKey.any (samePin · candidate) then []
      else [{ id, endpoint, key := pinnedKey state candidate now }]
    | .error _ => []
  | _ => []

end LibraryEdit

/-- Edits one after the other, each at its own time; the first failure ends the run. -/
def runEdits (P : Primitives) (token : RepositorySnapshot → String)
    (pendingValid : PendingAccountOperation → Bool) (start : SyncStateV3)
    (edits : List (LibraryEdit × Nat)) : Repo SyncStateV3 :=
  edits.foldlM (fun state edit => edit.1.run P token pendingValid state edit.2) start

/-- One of the edits is a `pin_host_key` that stored this key for the host at this endpoint. -/
def StoredBy (P : Primitives) (token : RepositorySnapshot → String)
    (pendingValid : PendingAccountOperation → Bool) (start : SyncStateV3)
    (edits : List (LibraryEdit × Nat)) (stored : Confirmation) : Prop :=
  ∃ earlier later previous candidate now before after,
    edits = earlier ++ (.edit (.pinHostKey stored.id stored.endpoint previous candidate), now) :: later ∧
    runEdits P token pendingValid start earlier = .ok before ∧
    pinHostKey P before stored.id stored.endpoint previous candidate now = .ok after ∧
    stored.key = pinnedKey before candidate now

section Runs
variable {token : RepositorySnapshot → String} {pendingValid : PendingAccountOperation → Bool}
  {log : List Confirmation}

theorem PinsConfirmed.of_same (confirmed : PinsConfirmed P log state)
    (same : SameHosts state next ∧ SameGroups state next) : PinsConfirmed P log next := by
  intro host row pin holds pinned
  have before := same.1.holds holds
  rw [same.2.endpointOf before.scope]
  exact confirmed host row pin before pinned

/-- Pins stay confirmed through every edit, with what the edit itself confirms. -/
theorem localEdit_pins {edit : LocalEdit} (ran : edit.run P token state now = .ok next)
    (confirmed : PinsConfirmed P log state) :
    PinsConfirmed P (log ++ LibraryEdit.confirms P state now (.edit edit)) next := by
  have longer := List.subset_append_left log (LibraryEdit.confirms P state now (.edit edit))
  cases edit with
  | createHost id scope payload => exact (createHost_pins ran confirmed).mono longer
  | updateHost id expected payload => exact (updateHost_pins ran confirmed).mono longer
  | deleteHost id expected => exact (deleteHost_pins ran confirmed).mono longer
  | moveHost id expected destination => exact (moveHost_pins ran confirmed).mono longer
  | pinHostKey id endpoint previous candidate =>
    apply pinHostKey_pins ran (confirmed.mono longer)
    intro view found other
    apply List.mem_append_right
    simp [LibraryEdit.confirms, found, other]
  | forgetHostKey id expected endpoint pin => exact (forgetHostKey_pins ran confirmed).mono longer
  | createGroup id scope payload upgrade => exact (createGroup_pins ran confirmed).mono longer
  | updateGroup id expected payload => exact (updateGroup_pins ran confirmed).mono longer
  | deleteGroup id expected reviewed => exact (deleteGroup_pins ran confirmed).mono longer
  | setGroupOrder expectedIds expected ids =>
    exact (confirmed.of_same (setGroupOrder_sections ran)).mono longer
  | renameKey id expected name => exact (confirmed.of_same (renameKey_sections ran)).mono longer

/-- The invariant of a run: pins are confirmed, groups resolve, and every live host is shown. -/
structure Trusted (P : Primitives) (log : List Confirmation) (state : SyncStateV3) : Prop where
  pins : PinsConfirmed P log state
  resolve : AllResolve P state
  readable : ∀ scope id row, (state.hostRecords scope)[recordKey .Host id]? = some row →
    row.record.deleted = false → scope ∈ readableScopes state

theorem Trusted.step {log' : List Confirmation} (trusted : Trusted P log state)
    (pins : PinsConfirmed P log' next) (advances : Advances P state next) : Trusted P log' next := by
  refine ⟨pins, advances.resolve trusted.resolve, fun scope id row held alive => ?_⟩
  rw [advances.live.readable]
  obtain readable | ⟨old, held, alive⟩ := advances.live.rows scope id row held alive
  · exact readable
  · exact trusted.readable scope id old held alive

theorem moveUnless_trusted {expected : RecordRevision} {current : HostScope}
    {destination : Option HostScope}
    (moved : moveUnless P state id expected current destination now = .ok next)
    (trusted : Trusted P log state) : Trusted P log next := by
  unfold moveUnless at moved
  split at moved
  · exact trusted.step (moveHost_pins moved trusted.pins) (moveHost_advances moved)
  · cases moved
    exact trusted

theorem setHostGroup_trusted {expected : RecordRevision} {groupId : Option String}
    (grouped : setHostGroup P state id expected groupId now = .ok next) (trusted : Trusted P log state) :
    Trusted P log next := by
  obtain ⟨view, _, grouped⟩ := Result.bind_eq_ok.mp grouped
  rw [Result.check_eq_ok] at grouped
  obtain ⟨_, grouped⟩ := grouped
  split at grouped
  · cases grouped
    exact trusted
  · obtain ⟨destination, _, grouped⟩ := Result.bind_eq_ok.mp grouped
    obtain ⟨moved, move, grouped⟩ := Result.bind_eq_ok.mp grouped
    obtain ⟨current, _, updated⟩ := Result.bind_eq_ok.mp grouped
    have after := moveUnless_trusted move trusted
    exact after.step (updateHost_pins updated after.pins) (updateHost_advances updated)

theorem promoteForHost_sections {scope : HostScope} {payload : HostPayload} {confirmed : Bool}
    (upgrade : promoteForHost state scope payload confirmed now = .ok next) :
    SameHosts state next ∧ SameGroups state next := by
  unfold promoteForHost at upgrade
  split at upgrade
  · rw [Result.check_eq_ok] at upgrade
    exact promote_sections upgrade.2
  · cases upgrade
    exact sections_of_equal rfl rfl rfl

theorem updateLibraryHost_trusted {expected : RecordRevision} {payload : HostPayload} {confirmed : Bool}
    (updated : updateLibraryHost P state id expected payload confirmed now = .ok next)
    (trusted : Trusted P log state) : Trusted P log next := by
  obtain ⟨saved, _, updated⟩ := Result.bind_eq_ok.mp updated
  obtain ⟨destination, _, updated⟩ := Result.bind_eq_ok.mp updated
  obtain ⟨moved, move, updated⟩ := Result.bind_eq_ok.mp updated
  obtain ⟨current, _, updated⟩ := Result.bind_eq_ok.mp updated
  obtain ⟨upgraded, upgrade, updated⟩ := Result.bind_eq_ok.mp updated
  have after := moveUnless_trusted move trusted
  have same := promoteForHost_sections upgrade
  have ready := after.step (after.pins.of_same same) (.of_same same)
  exact ready.step (updateHost_pins updated ready.pins) (updateHost_advances updated)

theorem libraryEdit_trusted {edit : LibraryEdit}
    (ran : edit.run P token pendingValid state now = .ok next) (trusted : Trusted P log state) :
    Trusted P (log ++ edit.confirms P state now) next := by
  have unconfirmed (after : Trusted P log next) : Trusted P (log ++ []) next := by
    rw [List.append_nil]
    exact after
  cases edit with
  | edit edit => exact trusted.step (localEdit_pins ran trusted.pins) (localEdit_advances ran)
  | updateHost id expected payload confirmed => exact unconfirmed (updateLibraryHost_trusted ran trusted)
  | setHostGroup id expected groupId => exact unconfirmed (setHostGroup_trusted ran trusted)
  | includeExisting destination confirmed keys =>
    apply unconfirmed
    exact trusted.step (includeExisting_pins ran trusted.resolve trusted.pins) (includeExisting_advances ran)

/-- The library has no live host. -/
def NoHosts (state : SyncStateV3) : Prop :=
  ∀ scope id row, (state.hostRecords scope)[recordKey .Host id]? = some row → row.record.deleted = true

theorem NoHosts.trusted {start : SyncStateV3} (empty : NoHosts start) : Trusted P [] start := by
  have none_held {host : HostRecord} {row : LocalRecord} (holds : Holds P start host row) : False := by
    have live := live_of_decodes holds.decodes
    rw [empty host.scope host.id row holds.held] at live
    cases live
  refine ⟨fun host row pin holds _ => (none_held holds).elim, fun host row holds => (none_held holds).elim, ?_⟩
  intro scope id row held live
  rw [empty scope id row held] at live
  cases live

theorem StoredBy.append {start : SyncStateV3} {edits : List (LibraryEdit × Nat)} {stored : Confirmation}
    (found : StoredBy P token pendingValid start edits stored) (edit : LibraryEdit × Nat) :
    StoredBy P token pendingValid start (edits ++ [edit]) stored := by
  obtain ⟨earlier, later, previous, candidate, now, before, after, rfl, facts⟩ := found
  exact ⟨earlier, later ++ [edit], previous, candidate, now, before, after, by simp, facts⟩

/-- What an edit confirms, it confirms by a successful `pin_host_key`. -/
theorem storedBy_of_confirms {start : SyncStateV3} {edits : List (LibraryEdit × Nat)} {edit : LibraryEdit}
    {stored : Confirmation} (before : runEdits P token pendingValid start edits = .ok state)
    (ran : edit.run P token pendingValid state now = .ok next) (confirms : stored ∈ edit.confirms P state now) :
    StoredBy P token pendingValid start (edits ++ [(edit, now)]) stored := by
  unfold LibraryEdit.confirms at confirms
  split at confirms
  · rename_i id endpoint previous candidate
    split at confirms
    · split at confirms
      · cases confirms
      · obtain rfl := List.mem_singleton.mp confirms
        exact ⟨edits, [], previous, candidate, now, state, next, rfl, before, ran, rfl⟩
    · cases confirms
  · cases confirms

theorem runEdits_trusted {start : SyncStateV3} {edits : List (LibraryEdit × Nat)} (empty : NoHosts start)
    (ran : runEdits P token pendingValid start edits = .ok state) :
    ∃ log, Trusted P log state ∧ ∀ stored ∈ log, StoredBy P token pendingValid start edits stored := by
  have invariant := Result.foldlM_invariant (fun done current =>
      runEdits P token pendingValid start done = .ok current ∧
      ∃ log, Trusted P log current ∧ ∀ stored ∈ log, StoredBy P token pendingValid start done stored)
    ⟨rfl, [], empty.trusted, by simp⟩ ?_ ran
  · exact invariant.2
  rintro done current ⟨edit, now⟩ rest after _ ⟨before, log, trusted, stored⟩ step
  refine ⟨?_, log ++ edit.confirms P current now, libraryEdit_trusted step trusted, ?_⟩
  · rw [runEdits, List.foldlM_append, ← runEdits, before]
    simpa using step
  · intro one member
    obtain earlier | here := List.mem_append.mp member
    · exact (stored one earlier).append _
    · exact storedBy_of_confirms before step here

end Runs

/-- However the hosts and groups of a device are edited, a pin that is still there was stored by
`pin_host_key` for the host name and port its host has now. -/
theorem surviving_pin_confirmed (P : Primitives) (token : RepositorySnapshot → String)
    (pendingValid : PendingAccountOperation → Bool) (start state : SyncStateV3)
    (edits : List (LibraryEdit × Nat)) (empty : NoHosts start)
    (ran : runEdits P token pendingValid start edits = .ok state) (host : HostRecord) (row : LocalRecord)
    (pin : StoredHostKey) (held : (state.hostRecords host.scope)[recordKey .Host host.id]? = some row)
    (decodes : decodeHost P row.record host.scope = .ok (.Live host))
    (pinned : host.payload.hostKey = some pin) :
    ∃ effective, resolveEffective P state host = .ok effective ∧
      StoredBy P token pendingValid start edits
        { id := host.id, key := pin
          endpoint := { hostname := effective.payload.hostname, port := effective.payload.port } } := by
  obtain ⟨log, trusted, stored⟩ := runEdits_trusted empty ran
  have holds : Holds P state host row :=
    ⟨trusted.readable _ _ row held (live_of_decodes decodes), held, decodes⟩
  obtain ⟨effective, resolved⟩ := resolves_of_groupError (trusted.resolve host row holds)
  refine ⟨effective, resolved, stored _ ?_⟩
  have confirmed := trusted.pins host row pin holds pinned
  rw [endpointOf, effectiveOf_eq resolved] at confirmed
  exact confirmed

namespace Sample

/-- A grouped host is pinned on its group's port, then moves into the library with its group. -/
def pinEdits : List (LibraryEdit × Nat) :=
  [(.edit (.createGroup groupId .Local (groupPayload 2222) true), 10),
    (.edit (.createHost hostId .Local
      { hostPayload with schema := GROUPED_HOST_SCHEMA, groupId := some groupId, inherit := [.Port] }), 20),
    (.edit (.pinHostKey hostId { hostname := "web.test", port := 2222 } none
      { algorithm := "a", publicKey := "b", fingerprint := "SHA256:b", pinnedAtMs := 0
        pinnedByDeviceId := "" }), 30),
    (.includeExisting chainId true none, 40)]

/-- The pin as the device stored it. -/
def storedPin : StoredHostKey :=
  { algorithm := "a", publicKey := "b", fingerprint := "SHA256:b", pinnedAtMs := 30
    pinnedByDeviceId := device }

def pinnedMember : HostRecord :=
  { id := hostId, scope := .Space chainId
    payload :=
      { hostPayload with
        schema := GROUPED_HOST_SCHEMA, groupId := some groupId, inherit := [.Port], hostKey := some storedPin } }

end Sample

theorem pin_follows_its_group :
    ∃ state effective, runEdits Sample.memberTable (fun _ => "") (fun _ => true)
        (Sample.library Sample.space) Sample.pinEdits = .ok state ∧
      resolveEffective Sample.memberTable state Sample.pinnedMember = .ok effective ∧
      StoredBy Sample.memberTable (fun _ => "") (fun _ => true) (Sample.library Sample.space) Sample.pinEdits
        { id := Sample.hostId, key := Sample.storedPin
          endpoint := { hostname := effective.payload.hostname, port := effective.payload.port } } := by
  have facts : ∃ state ∈ (runEdits Sample.memberTable (fun _ => "") (fun _ => true)
      (Sample.library Sample.space) Sample.pinEdits).toOption,
      ∃ row ∈ (state.hostRecords (.Space Sample.chainId))[recordKey .Host Sample.hostId]?,
        decodeHost Sample.memberTable row.record (.Space Sample.chainId) = .ok (.Live Sample.pinnedMember) := by
    decide +kernel
  obtain ⟨state, ran, row, held, decodes⟩ := facts
  have succeeded : runEdits Sample.memberTable (fun _ => "") (fun _ => true) (Sample.library Sample.space)
      Sample.pinEdits = .ok state := by
    cases result : runEdits Sample.memberTable (fun _ => "") (fun _ => true) (Sample.library Sample.space)
        Sample.pinEdits with
    | error e => simp [result, Except.toOption] at ran
    | ok other =>
      simp only [result, Except.toOption, Option.mem_def, Option.some.injEq] at ran
      rw [ran]
  have empty : NoHosts (Sample.library Sample.space) := by
    intro scope id row held
    cases scope with
    | «Local» => simp [Sample.library, LocalState.default, SyncStateV3.hostRecords] at held
    | Space spaceId =>
      by_cases here : Sample.chainId = spaceId
      · subst here
        simp [Sample.library, Sample.space, SpaceStateV3.default, SyncStateV3.hostRecords,
          SyncStateV3.spaceRecords] at held
      · simp [Sample.library, SyncStateV3.hostRecords, SyncStateV3.spaceRecords,
          BTreeMap.get?_insert_ne _ _ here] at held
  obtain ⟨effective, resolved, stored⟩ := surviving_pin_confirmed _ _ _ _ state _ empty succeeded
    Sample.pinnedMember row Sample.storedPin held decodes rfl
  exact ⟨state, effective, succeeded, resolved, stored⟩

end Sshelter.Sync
