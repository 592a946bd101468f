import Sshelter.Sync.Library
import Sshelter.Verified.Pins

/-! # Including this device's records in the library

`include_existing` moves every live group and host of this device into one space, with
their payloads as they are.  A moved host finds the same groups at its new place, and a
host that was there before keeps its own, because no live row is overwritten.
-/

namespace Sshelter.Sync

variable {P : Primitives} {state next : SyncStateV3} {destination : String} {now : Nat}

/-! ## What the inclusion writes -/

/-- The records of both sections are untouched. -/
structure SameRecords (state state' : SyncStateV3) : Prop where
  spaces : state'.spaces = state.spaces
  «local» : state'.local = state.local

theorem SameRecords.refl (state : SyncStateV3) : SameRecords state state := ⟨rfl, rfl⟩

theorem SameRecords.scopes {state' : SyncStateV3} (same : SameRecords state state') :
    SameScopes state state' := by
  refine ⟨by simp only [readableScopes, same.spaces], fun scope => ?_⟩
  cases scope with
  | «Local» => rfl
  | Space spaceId => simp only [scopeSealed, SyncStateV3.spaceSealed, same.spaces]

theorem promote_records {scope : HostScope} {confirmed : Bool}
    (done : promote state scope confirmed now = .ok next) : SameRecords state next := by
  obtain ⟨_, rfl⟩ | ⟨_, _, _, _, _, _, _, _, rfl⟩ := promote_cases done
  · exact ⟨rfl, rfl⟩
  · exact ⟨rfl, rfl⟩

theorem setAccountRow_records {key : String} {row : LocalRecord} :
    SameRecords state (state.setAccountRow key row) := by
  unfold SyncStateV3.setAccountRow
  split
  · exact .refl state
  · exact ⟨rfl, rfl⟩

theorem publishLocal_records {keys : Option ChainKeys}
    (published : publishLocal P state keys now = .ok next) : SameRecords state next := by
  unfold publishLocal at published
  split at published
  · cases published
    exact .refl state
  · simp only at published
    split at published
    · cases published
      exact .refl state
    · rw [Result.check_eq_ok, Result.check_eq_ok] at published
      obtain ⟨_, _, published⟩ := published
      obtain ⟨record, _, published⟩ := Result.bind_eq_ok.mp published
      cases published
      exact setAccountRow_records

/-- The cache key a row should have. -/
def rowKey (row : LocalRecord) : String := recordKey row.record.kind row.record.id

/-- A new live revision with the kind, id and payload of the row, which wins over it and over what the
space held in its place. -/
structure Succeeds (state : SyncStateV3) (destination : String) (row new : LocalRecord) : Prop where
  kind : new.record.kind = row.record.kind
  id : new.record.id = row.record.id
  payload : new.record.payload = row.record.payload
  live : new.record.deleted = false
  later : remoteWins row.record new.record = true
  replaces : ∀ old, (state.spaceRecords destination)[rowKey row]? = some old →
    remoteWins old.record new.record = true

/-- The space holds the moved row, in the place of a deleted one. -/
structure ArrivedIn (state next : SyncStateV3) (destination : String) (row : LocalRecord) : Prop where
  vacant : ∀ old, (state.spaceRecords destination)[rowKey row]? = some old → old.record.deleted = true
  arrived : ∃ new, (next.spaceRecords destination)[rowKey row]? = some new ∧
    Succeeds state destination row new

/-- The rows moved so far, and nothing else. -/
structure Included (state : SyncStateV3) (destination : String) (moved : List LocalRecord)
    (next : SyncStateV3) : Prop extends SameScopes state next where
  elsewhere : ∀ spaceId ≠ destination, next.spaceRecords spaceId = state.spaceRecords spaceId
  there : ∀ key, (∃ row ∈ moved, rowKey row = key) →
    ∃ row ∈ moved, rowKey row = key ∧ ArrivedIn state next destination row
  untouched : ∀ key, (∀ row ∈ moved, rowKey row ≠ key) →
    (next.spaceRecords destination)[key]? = (state.spaceRecords destination)[key]?
  here : ∀ key row, next.local.hosts[key]? = some row → row.record.deleted = true ∨
    (state.local.hosts[key]? = some row ∧ ∀ other ∈ moved, other.record.kind = .Host → rowKey other ≠ key)
  groupsHere : ∀ key row, next.local.groups[key]? = some row → row.record.deleted = true ∨
    (state.local.groups[key]? = some row ∧ ∀ other ∈ moved, other.record.kind = .Group → rowKey other ≠ key)

theorem Included.of_records {moved : List LocalRecord} {next' : SyncStateV3}
    (included : Included state destination moved next) (same : SameRecords next next') :
    Included state destination moved next' := by
  have rows (spaceId : String) : next'.spaceRecords spaceId = next.spaceRecords spaceId := by
    simp only [SyncStateV3.spaceRecords, same.spaces]
  refine ⟨included.toSameScopes.trans same.scopes, fun spaceId other => ?_, fun key there => ?_,
    fun key free => ?_, ?_, ?_⟩
  · rw [rows, included.elsewhere spaceId other]
  · obtain ⟨row, member, named, vacant, arrived⟩ := included.there key there
    exact ⟨row, member, named, vacant, by rw [rows]; exact arrived⟩
  · rw [rows, included.untouched key free]
  · rw [same.local]
    exact included.here
  · rw [same.local]
    exact included.groupsHere

theorem Included.start (same : SameRecords state next) : Included state destination [] next := by
  apply Included.of_records ?_ same
  exact ⟨.refl state, fun _ _ => rfl, by simp, fun _ _ => rfl, fun key row held => .inr ⟨held, by simp⟩,
    fun key row held => .inr ⟨held, by simp⟩⟩

section Row
variable {kind : RecordKind} {key : String} {row : LocalRecord}

theorem setLocalRow_spaces : (setLocalRow state kind key row).spaces = state.spaces := by
  unfold setLocalRow
  split <;> rfl

theorem setLocalRow_scopes : SameScopes state (setLocalRow state kind key row) := by
  unfold setLocalRow
  split
  · exact .setGroupRow
  · exact .setHostRow

theorem setLocalRow_hosts : (setLocalRow state kind key row).local.hosts =
    if kind = .Group then state.local.hosts else state.local.hosts.insert key row := by
  unfold setLocalRow
  split <;> rfl

theorem setLocalRow_groups : (setLocalRow state kind key row).local.groups =
    if kind = .Group then state.local.groups.insert key row else state.local.groups := by
  unfold setLocalRow
  split <;> rfl

theorem setSpaceRow_local {spaceId : String} : (state.setSpaceRow spaceId key row).local = state.local := by
  unfold SyncStateV3.setSpaceRow
  split <;> rfl

end Row

theorem remoteWins_of_newer {mine remote : Record} (newer : mine.updatedAtMs < remote.updatedAtMs) :
    remoteWins mine remote = true := by
  have order : compare remote.updatedAtMs mine.updatedAtMs = .gt := Nat.compare_eq_gt.mpr newer
  simp [remoteWins, order]

/-- What one step of the inclusion writes: a tombstone here and the moved row there. -/
theorem includeRow_cases {retained : List (String × String)} {current : SyncStateV3} {row : LocalRecord}
    (ran : includeRow state destination retained now current row = .ok next) :
    ∃ record seq, Succeeds state destination row (cachedRow record seq (.Space destination)) ∧
      next = (setLocalRow current row.record.kind (rowKey row)
          (cachedRow { record with deleted := true, payload := .null } row.seq .Local)).setSpaceRow
        destination (rowKey row) (cachedRow record seq (.Space destination)) ∧
      ∀ spaceId space, state.spaces[spaceId]? = some space → checkSpaceFree retained row (spaceId, space) = .ok () := by
  simp only [includeRow] at ran
  rw [Result.check_eq_ok, Result.check_eq_ok] at ran
  obtain ⟨free, _, ran⟩ := ran
  obtain ⟨record, ordered, ran⟩ := Result.bind_eq_ok.mp ran
  obtain ⟨_, id, _, live, payload, _, earlier⟩ := orderedRecord_spec ordered
  cases ran
  refine ⟨{ record with kind := row.record.kind }, _, ⟨rfl, id, payload, live, ?_, ?_⟩, rfl,
    fun spaceId space found => ?_⟩
  · exact remoteWins_of_newer (earlier row.record List.mem_cons_self).2
  · intro old held
    refine remoteWins_of_newer (earlier old.record (List.mem_cons_of_mem _ ?_)).2
    change (state.spaceRecords destination)[recordKey row.record.kind row.record.id]? = some old at held
    simp [held]
  · exact Result.forEach_eq_ok.mp free _ (BTreeMap.mem_toList.mpr found)

/-- No live row of the space has the identity of the moved one. -/
theorem vacant_of_free {retained : List (String × String)} {row : LocalRecord} {spaceId : String}
    {space : SpaceStateV3} (free : checkSpaceFree retained row (spaceId, space) = .ok ()) {old : LocalRecord}
    (held : space.records[rowKey row]? = some old) : old.record.deleted = true := by
  rw [checkSpaceFree, Result.check_eq_ok, Result.refuse_eq_ok, Result.refuse_eq_ok,
    Bool.or_eq_false_iff] at free
  have deleted := free.2.1
  rw [show space.records[recordKey row.record.kind row.record.id]? = some old from held] at deleted
  simpa using deleted

theorem Included.step {retained : List (String × String)} {moved : List LocalRecord}
    {current : SyncStateV3} {row : LocalRecord} (readable : .Space destination ∈ readableScopes state)
    (included : Included state destination moved current)
    (ran : includeRow state destination retained now current row = .ok next) :
    Included state destination (moved ++ [row]) next := by
  obtain ⟨record, seq, supersedes, rfl, free⟩ := includeRow_cases ran
  obtain ⟨space, found, _⟩ := mem_readableScopes_space.mp readable
  obtain ⟨space', found', _⟩ := mem_readableScopes_space.mp (included.readable ▸ readable)
  set marked := setLocalRow current row.record.kind (rowKey row)
    (cachedRow { record with deleted := true, payload := .null } row.seq .Local) with marked_eq
  have rows (spaceId : String) : marked.spaceRecords spaceId = current.spaceRecords spaceId := by
    simp only [SyncStateV3.spaceRecords, marked_eq, setLocalRow_spaces]
  have open_ : marked.spaces[destination]? = some space' := by
    rw [marked_eq, setLocalRow_spaces, found']
  have written : ((marked.setSpaceRow destination (rowKey row)
      (cachedRow record seq (.Space destination))).spaceRecords destination)[rowKey row]? =
      some (cachedRow record seq (.Space destination)) := spaceRecords_setSpaceRow_self open_
  -- only the row's own slot of the destination is written
  have kept (key : String) (other : rowKey row ≠ key) :
      ((marked.setSpaceRow destination (rowKey row) (cachedRow record seq (.Space destination))).spaceRecords
        destination)[key]? = (current.spaceRecords destination)[key]? := by
    rw [spaceRecords_setSpaceRow_ne (by simpa using other), rows]
  have arrives : ArrivedIn state
      (marked.setSpaceRow destination (rowKey row) (cachedRow record seq (.Space destination))) destination row := by
    refine ⟨fun old held => vacant_of_free (free destination space found) ?_, _, written, supersedes⟩
    simpa [SyncStateV3.spaceRecords, found] using held
  refine ⟨?_, fun spaceId other => ?_, fun key there => ?_, fun key untouched => ?_, fun key old held => ?_,
    fun key old held => ?_⟩
  · exact (included.toSameScopes.trans setLocalRow_scopes).trans .setSpaceRow
  · rw [← included.elsewhere spaceId other, ← rows spaceId]
    apply BTreeMap.ext
    intro key
    exact spaceRecords_setSpaceRow_ne (by simp [Ne.symm other])
  · by_cases this : rowKey row = key
    · exact ⟨row, by simp, this, arrives⟩
    · obtain ⟨other, member, named⟩ := there
      have earlier : other ∈ moved := by
        obtain inMoved | last := List.mem_append.mp member
        · exact inMoved
        · obtain rfl := List.mem_singleton.mp last
          exact absurd named this
      obtain ⟨other, member, rfl, vacant, arrived⟩ := included.there key ⟨other, earlier, named⟩
      exact ⟨other, List.mem_append_left _ member, rfl, vacant, by rw [kept _ this]; exact arrived⟩
  · rw [kept key (untouched row (by simp)), included.untouched key fun other member =>
      untouched other (List.mem_append_left _ member)]
  · -- a local host is gone once its row has moved, and stays where no row of its key did
    rw [setSpaceRow_local, marked_eq, setLocalRow_hosts] at held
    split at held
    · rename_i grouped
      obtain gone | ⟨before, free⟩ := included.here key old held
      · exact .inl gone
      · refine .inr ⟨before, fun other member host => ?_⟩
        obtain inMoved | last := List.mem_append.mp member
        · exact free other inMoved host
        · obtain rfl := List.mem_singleton.mp last
          rw [grouped] at host
          cases host
    · rw [BTreeMap.get?_insert] at held
      split at held
      · cases held
        exact .inl rfl
      · rename_i other
        obtain gone | ⟨before, free⟩ := included.here key old held
        · exact .inl gone
        · refine .inr ⟨before, fun another member host => ?_⟩
          obtain inMoved | last := List.mem_append.mp member
          · exact free another inMoved host
          · obtain rfl := List.mem_singleton.mp last
            exact other
  · -- the same of a local group
    rw [setSpaceRow_local, marked_eq, setLocalRow_groups] at held
    split at held
    · rw [BTreeMap.get?_insert] at held
      split at held
      · cases held
        exact .inl rfl
      · rename_i other
        obtain gone | ⟨before, free⟩ := included.groupsHere key old held
        · exact .inl gone
        · refine .inr ⟨before, fun another member grouped => ?_⟩
          obtain inMoved | last := List.mem_append.mp member
          · exact free another inMoved grouped
          · obtain rfl := List.mem_singleton.mp last
            exact other
    · rename_i host
      obtain gone | ⟨before, free⟩ := included.groupsHere key old held
      · exact .inl gone
      · refine .inr ⟨before, fun other member grouped => ?_⟩
        obtain inMoved | last := List.mem_append.mp member
        · exact free other inMoved grouped
        · obtain rfl := List.mem_singleton.mp last
          exact (host grouped).elim

/-! ## The inclusion as a whole -/

theorem checkCollection_cases {expected : RecordKind} {rows : BTreeMap LocalRecord}
    (checked : checkCollection expected rows = .ok ()) {key : String} {row : LocalRecord}
    (held : rows[key]? = some row) : key = rowKey row ∧ row.record.kind = expected := by
  have valid := Result.forEach_eq_ok.mp checked _ (BTreeMap.mem_toList.mpr held)
  rw [Result.check_eq_ok, validateCache_isOk, Result.refuse_eq_ok] at valid
  exact ⟨valid.1.key, by simpa using valid.2⟩

/-- Every live row of this device moves. -/
structure IncludesExisting (P : Primitives) (state : SyncStateV3) (destination : String)
    (next : SyncStateV3) : Prop where
  writable : ensureScope state (.Space destination) = .ok ()
  groups : checkCollection .Group state.local.groups = .ok ()
  hosts : checkCollection .Host state.local.hosts = .ok ()
  included : Included state destination (localRows state) next
  grouped : ∃ moved, SameRecords moved next ∧ validateGroups moved (.Space destination) = .ok ()
  transition : validateTransition P state next = .ok ()

theorem includeExisting_cases {pendingValid : PendingAccountOperation → Bool} {confirmed : Bool}
    {keys : Option ChainKeys}
    (ran : includeExisting P pendingValid state destination confirmed now keys = .ok next) :
    (localRows state = [] ∧ next = state) ∨ IncludesExisting P state destination next := by
  rw [includeExisting, Result.check_eq_ok, Result.check_eq_ok, Result.check_eq_ok] at ran
  obtain ⟨ready, groups, hosts, ran⟩ := ran
  rw [libraryReady, Result.check_eq_ok] at ready
  simp only at ran
  split at ran
  · rename_i none_
    cases ran
    exact .inl ⟨List.isEmpty_iff.mp none_, rfl⟩
  · obtain ⟨upgraded, promoted, ran⟩ := Result.bind_eq_ok.mp ran
    obtain ⟨moved, loop, ran⟩ := Result.bind_eq_ok.mp ran
    rw [Result.check_eq_ok] at ran
    obtain ⟨grouped, ran⟩ := ran
    obtain ⟨published, order, ran⟩ := Result.bind_eq_ok.mp ran
    rw [Result.check_eq_ok, Result.check_eq_ok] at ran
    obtain ⟨transition, _, same⟩ := ran
    cases same
    have upgrade : SameRecords state upgraded := by
      unfold promoteForRows at promoted
      split at promoted
      · exact promote_records promoted
      · cases promoted
        exact .refl _
    have readable := readable_of_ensureScope ready.1
    have included : Included state destination (localRows state) moved :=
      Result.foldlM_invariant (fun done => Included state destination done) (.start upgrade)
        (fun _ _ _ _ _ _ included step => included.step readable step) loop
    have order := publishLocal_records order
    exact .inr ⟨ready.1, groups, hosts, included.of_records order, ⟨_, order, grouped⟩, transition⟩

theorem mem_localRows {row : LocalRecord} : row ∈ localRows state ↔ row.record.deleted = false ∧
    ((∃ key : String, state.local.groups[key]? = some row) ∨
      ∃ key : String, state.local.hosts[key]? = some row) := by
  simp only [localRows, List.mem_filter, List.mem_append, BTreeMap.mem_values, Bool.not_eq_eq_eq_not,
    Bool.not_true]
  exact and_comm

/-- Where a host of the scope is found after the inclusion. -/
def includedScope (destination : String) : HostScope → HostScope
  | .Local => .Space destination
  | .Space spaceId => .Space spaceId

namespace IncludesExisting

/-- A moved row is the live row of its kind on this device. -/
theorem moved_group (includes : IncludesExisting P state destination next) {row : LocalRecord}
    {id : String} (member : row ∈ localRows state) (named : rowKey row = recordKey .Group id) :
    state.local.groups[recordKey .Group id]? = some row := by
  obtain ⟨_, ⟨key, held⟩ | ⟨key, held⟩⟩ := mem_localRows.mp member
  · obtain ⟨rfl, _⟩ := checkCollection_cases includes.groups held
    rw [← named]
    exact held
  · obtain ⟨_, kind⟩ := checkCollection_cases includes.hosts held
    cases kind.symm.trans (recordKey_injective named).1

theorem moved_host (includes : IncludesExisting P state destination next) {row : LocalRecord}
    {id : String} (member : row ∈ localRows state) (named : rowKey row = recordKey .Host id) :
    state.local.hosts[recordKey .Host id]? = some row := by
  obtain ⟨_, ⟨key, held⟩ | ⟨key, held⟩⟩ := mem_localRows.mp member
  · obtain ⟨_, kind⟩ := checkCollection_cases includes.groups held
    cases kind.symm.trans (recordKey_injective named).1
  · obtain ⟨rfl, _⟩ := checkCollection_cases includes.hosts held
    rw [← named]
    exact held

/-- No live row of the space was overwritten. -/
theorem kept (includes : IncludesExisting P state destination next) {key : String} {row : LocalRecord}
    (held : (state.spaceRecords destination)[key]? = some row) (live : row.record.deleted = false) :
    (next.spaceRecords destination)[key]? = some row := by
  by_cases moved : ∃ row ∈ localRows state, rowKey row = key
  · obtain ⟨_, _, rfl, arrived⟩ := includes.included.there key moved
    rw [arrived.vacant row held] at live
    cases live
  · rw [includes.included.untouched key fun row member same => moved ⟨row, member, same⟩]
    exact held

/-- In a space every group that was found is found with its own settings. -/
theorem sameSettings_space (includes : IncludesExisting P state destination next) (spaceId : String) :
    SameSettings state (.Space spaceId) next (.Space spaceId) := by
  intro id found found' read read'
  obtain ⟨_, row, held, decodes⟩ := group_eq_ok read
  obtain ⟨_, row', held', decodes'⟩ := group_eq_ok read'
  obtain ⟨_, live, _, _, payload⟩ := decodeGroup_live decodes
  obtain ⟨_, _, _, _, payload'⟩ := decodeGroup_live decodes'
  have same : row' = row := by
    by_cases here : spaceId = destination
    · subst here
      exact Option.some.inj (held'.symm.trans (includes.kept held live))
    · change (next.spaceRecords spaceId)[_]? = _ at held'
      rw [includes.included.elsewhere spaceId here] at held'
      exact Option.some.inj (held'.symm.trans held)
  rw [same, payload] at payload'
  exact (Option.some.inj payload').symm

/-- The groups of this device arrive with their settings. -/
theorem sameSettings_moved (includes : IncludesExisting P state destination next) :
    SameSettings state .Local next (.Space destination) := by
  intro id found found' read read'
  obtain ⟨_, row, held, decodes⟩ := group_eq_ok read
  obtain ⟨_, row', held', decodes'⟩ := group_eq_ok read'
  obtain ⟨_, live, _, _, payload⟩ := decodeGroup_live decodes
  obtain ⟨_, _, _, _, payload'⟩ := decodeGroup_live decodes'
  have member : row ∈ localRows state := mem_localRows.mpr ⟨live, .inl ⟨_, held⟩⟩
  obtain ⟨named, _⟩ := checkCollection_cases includes.groups held
  obtain ⟨moved, inRows, sameKey, _, new, arrived, supersedes⟩ :=
    includes.included.there _ ⟨row, member, named.symm⟩
  have moved_eq : moved = row :=
    Option.some.inj ((includes.moved_group inRows sameKey).symm.trans held)
  subst moved_eq
  rw [sameKey] at arrived
  have row_eq : row' = new := Option.some.inj (held'.symm.trans arrived)
  rw [row_eq, supersedes.payload, payload] at payload'
  exact (Option.some.inj payload').symm

/-- A host of the library after the inclusion was there before, at the same place or on this
device, with the same settings. -/
theorem host_before (includes : IncludesExisting P state destination next) {host : HostRecord}
    {row : LocalRecord} (holds : Holds P next host row) :
    ∃ old oldRow, Holds P state old oldRow ∧ old.id = host.id ∧ old.payload = host.payload ∧
      includedScope destination old.scope = host.scope ∧ SameSettings state old.scope next host.scope := by
  obtain ⟨kind, live, id, placed, payload, _⟩ := decodeHost_live holds.decodes
  have readable : host.scope ∈ readableScopes state := includes.included.readable ▸ holds.scope
  have unmoved {spaceId : String} (at_ : host.scope = .Space spaceId)
      (held : (state.spaceRecords spaceId)[recordKey .Host host.id]? = some row) :
      ∃ old oldRow, Holds P state old oldRow ∧ old.id = host.id ∧ old.payload = host.payload ∧
        includedScope destination old.scope = host.scope ∧ SameSettings state old.scope next host.scope := by
    refine ⟨host, row, ⟨readable, ?_, holds.decodes⟩, rfl, rfl, ?_, ?_⟩
    · rw [at_]
      exact held
    · rw [at_]
      rfl
    · rw [at_]
      exact includes.sameSettings_space spaceId
  have held := holds.held
  cases at_ : host.scope with
  | «Local» =>
    -- nothing live stays on this device
    rw [at_] at held
    obtain gone | ⟨before, free⟩ := includes.included.here _ _ held
    · rw [gone] at live
      cases live
    · obtain ⟨named, _⟩ := checkCollection_cases includes.hosts before
      have member : row ∈ localRows state := mem_localRows.mpr ⟨live, .inr ⟨_, before⟩⟩
      exact absurd named.symm (free row member kind)
  | Space spaceId =>
    rw [← at_]
    rw [at_] at held
    change (next.spaceRecords spaceId)[_]? = _ at held
    by_cases here : spaceId = destination
    · subst here
      by_cases moved : ∃ row ∈ localRows state, rowKey row = recordKey .Host host.id
      · obtain ⟨origin, member, named, _, new, arrived, supersedes⟩ := includes.included.there _ moved
        have before := includes.moved_host member named
        rw [named] at arrived
        have row_eq : row = new := Option.some.inj (held.symm.trans arrived)
        obtain ⟨hosts, _, listed, _⟩ := validateTransition_cases includes.transition
        obtain ⟨stays, _⟩ := mem_localRows.mp member
        have here : .Local ∈ readableScopes state := List.mem_cons_self
        obtain ⟨old, sameId, placed, oldHolds⟩ := holds_of_live listed here before stays
        refine ⟨old, origin, oldHolds, sameId, ?_, ?_, ?_⟩
        · obtain ⟨_, _, _, _, oldPayload, _⟩ := decodeHost_live oldHolds.decodes
          rw [row_eq, supersedes.payload, oldPayload] at payload
          exact Option.some.inj payload
        · rw [placed, at_]
          rfl
        · rw [placed, at_]
          exact includes.sameSettings_moved
      · rw [includes.included.untouched _ fun row member same => moved ⟨row, member, same⟩] at held
        exact unmoved at_ held
    · rw [includes.included.elsewhere spaceId here] at held
      exact unmoved at_ held

end IncludesExisting

/-- Including the records moves every pin with the settings it was confirmed for. -/
theorem includeExisting_pins {log : List Confirmation} {pendingValid : PendingAccountOperation → Bool}
    {confirmed : Bool} {keys : Option ChainKeys}
    (ran : includeExisting P pendingValid state destination confirmed now keys = .ok next)
    (resolve : AllResolve P state) (pins : PinsConfirmed P log state) : PinsConfirmed P log next := by
  obtain ⟨_, rfl⟩ | includes := includeExisting_cases ran
  · exact pins
  intro host row pin holds pinned
  obtain ⟨old, oldRow, oldHolds, id, payload, _, settings⟩ := includes.host_before holds
  obtain ⟨effective, resolved⟩ := resolves_of_groupError (resolve old oldRow oldHolds)
  obtain ⟨effective', resolved'⟩ :=
    resolves_of_groupError (resolve.transition includes.transition host row holds)
  have same := effectiveOf_settings settings payload.symm resolved resolved'
  have endpoint_eq : endpointOf P next host = endpointOf P state old := by
    rw [endpointOf, endpointOf, same]
  rw [endpoint_eq, ← id]
  exact pins old oldRow pin oldHolds (by rw [payload]; exact pinned)

end Sshelter.Sync
