import Sshelter.Verified.Library

/-! # What every operation writes

One inversion lemma per operation: the checks that passed and the candidate they led
to.  Invariants of the library are proved from these alone.
-/

namespace Sshelter.Sync

variable {P : Primitives} {state next : SyncStateV3} {id : String} {now : Nat}

/-! ## Scopes and transitions -/

theorem readable_of_ensureScope {scope : HostScope} (writable : ensureScope state scope = .ok ()) :
    scope ∈ readableScopes state := by
  cases scope with
  | «Local» => exact List.mem_cons_self
  | Space spaceId =>
    rw [ensureScope, Result.check_eq_ok, Result.check_eq_ok] at writable
    obtain ⟨_, _, writable⟩ := writable
    split at writable
    · cases writable
    · rename_i space found
      rw [Result.refuse_eq_ok, Bool.or_eq_false_iff] at writable
      exact mem_readableScopes_space.mpr ⟨space, found, by simpa using writable⟩

theorem validateTransition_cases {before : SyncStateV3}
    (valid : validateTransition P before next = .ok ()) :
    ∃ old new, listHosts P before = .ok old ∧ listHosts P next = .ok new ∧
      ∀ view ∈ new, checkView old new view = .ok () := by
  obtain ⟨old, listed, valid⟩ := Result.bind_eq_ok.mp valid
  obtain ⟨new, listed', valid⟩ := Result.bind_eq_ok.mp valid
  exact ⟨old, new, listed, listed', Result.forEach_eq_ok.mp valid⟩

/-- Every host of the library finds its groups. -/
def AllResolve (P : Primitives) (state : SyncStateV3) : Prop :=
  ∀ host row, Holds P state host row → groupErrorOf P state host = none

theorem resolves_of_groupError {host : HostRecord} (clean : groupErrorOf P state host = none) :
    ∃ effective, resolveEffective P state host = .ok effective := by
  unfold groupErrorOf at clean
  split at clean
  · exact ⟨_, ‹_›⟩
  · cases clean

theorem groupErrorOf_eq_none {host : HostRecord} {effective : EffectiveHost}
    (resolved : resolveEffective P state host = .ok effective) : groupErrorOf P state host = none := by
  simp only [groupErrorOf, resolved]

/-- No edit may give a host a group defect it did not have. -/
theorem AllResolve.transition {before : SyncStateV3} (resolve : AllResolve P before)
    (valid : validateTransition P before next = .ok ()) : AllResolve P next := by
  obtain ⟨old, new, listed, listed', checks⟩ := validateTransition_cases valid
  intro host row holds
  obtain ⟨view, member, rfl, shown⟩ := exists_view listed' holds
  have checked := checks view member
  rw [checkView, Result.check_eq_ok, Result.forSome_eq_ok] at checked
  by_contra defect
  obtain ⟨error, found⟩ := Option.ne_none_iff_exists'.mp defect
  have before := checked.1 error (shown.groupError.trans found)
  rw [Result.refuse_eq_ok, Bool.not_eq_false', List.any_eq_true] at before
  obtain ⟨other, inOld, same⟩ := before
  obtain ⟨otherRow, otherShown⟩ := shown_of_mem listed inOld
  have clean := resolve other.host otherRow otherShown.holds
  rw [← otherShown.groupError] at clean
  simp [clean] at same

/-! ## Hosts -/

theorem getHost_shown {view : HostView} (found : getHost P state id = .ok view) :
    ∃ hosts row, listHosts P state = .ok hosts ∧ view ∈ hosts ∧ Shown P state view row ∧
      view.host.id = id := by
  have named := getHost_id found
  obtain ⟨hosts, listed, found⟩ := Result.bind_eq_ok.mp found
  obtain ⟨index, _, found⟩ := Result.bind_eq_ok.mp found
  split at found
  · rename_i shown at_
    cases found
    have member := List.mem_of_getElem? at_
    obtain ⟨row, shown⟩ := shown_of_mem listed member
    exact ⟨hosts, row, listed, member, shown, named⟩
  · cases found

theorem checkedHost_cases {expected : RecordRevision} {view : HostView}
    (checked : checkedHost P state id expected = .ok view) :
    getHost P state id = .ok view ∧ view.revision = expected ∧
      ensureScope state view.host.scope = .ok () ∧ ensureHostAuthority state view.host = .ok () := by
  obtain ⟨found, gotten, checked⟩ := Result.bind_eq_ok.mp checked
  rw [Result.check_eq_ok, Result.check_eq_ok, Result.check_eq_ok, Result.refuse_eq_ok] at checked
  obtain ⟨current, scope, authority, same⟩ := checked
  cases same
  exact ⟨gotten, by simpa using current, scope, authority⟩

/-- A new revision of a host row. -/
structure Rewrites (P : Primitives) (state : SyncStateV3) (scope : HostScope) (id : String) (payload : Json)
    (deleted : Bool) (now : Nat) (previous : LocalRecord) (record : Record) (next : SyncStateV3) : Prop where
  held : (state.hostRecords scope)[recordKey .Host id]? = some previous
  ordered : orderedRecord state.deviceId id payload deleted now [previous.record] = .ok record
  transition : validateTransition P state next = .ok ()
  written : next = state.setHostRow scope (recordKey .Host id) (cachedRow record previous.seq scope)

theorem replaceRow_cases {scope : HostScope} {payload : Json} {deleted : Bool}
    (replaced : replaceRow P state scope id payload deleted now = .ok next) :
    ∃ previous record, Rewrites P state scope id payload deleted now previous record next := by
  simp only [replaceRow] at replaced
  split at replaced
  · cases replaced
  · rename_i previous held
    obtain ⟨record, ordered, replaced⟩ := Result.bind_eq_ok.mp replaced
    rw [Result.check_eq_ok] at replaced
    obtain ⟨transition, same⟩ := replaced
    cases same
    exact ⟨previous, record, held, ordered, transition, rfl⟩

structure CreatesHost (P : Primitives) (state : SyncStateV3) (id : String) (scope : HostScope)
    (payload : HostPayload) (now : Nat) (record : Record) (next : SyncStateV3) : Prop where
  writable : ensureScope state scope = .ok ()
  format : requireHostFormat state payload scope = .ok ()
  fresh : state.local.hosts.contains (recordKey .Host id) = false ∧
    (state.spaces.values.any fun space => space.records.contains (recordKey .Host id)) = false
  valid : validateHost P { id, scope, payload := { payload with hostKey := none } } = .ok ()
  ordered : orderedRecord state.deviceId id { payload with hostKey := none }.toJson false now [] = .ok record
  transition : validateTransition P state next = .ok ()
  written : next = state.setHostRow scope (recordKey .Host id) (cachedRow record 0 scope)

theorem createHost_cases {scope : HostScope} {payload : HostPayload}
    (created : createHost P state id scope payload now = .ok next) :
    ∃ record, CreatesHost P state id scope payload now record next := by
  rw [createHost, Result.check_eq_ok, Result.check_eq_ok] at created
  obtain ⟨writable, format, created⟩ := created
  rw [Result.check_eq_ok, Result.check_eq_ok, Result.refuse_eq_ok, Bool.or_eq_false_iff] at created
  obtain ⟨fresh, valid, created⟩ := created
  obtain ⟨record, ordered, created⟩ := Result.bind_eq_ok.mp created
  rw [Result.check_eq_ok] at created
  obtain ⟨transition, same⟩ := created
  cases same
  exact ⟨record, writable, format, fresh, Result.mapError_eq_ok.mp valid, ordered, transition, rfl⟩

/-- The pin an update keeps: only the same endpoint keeps one. -/
def keptPin (view : HostView) (effective : EffectiveHost) : Option StoredHostKey :=
  if view.effectivePayload.hostname == effective.payload.hostname &&
      view.effectivePayload.port == effective.payload.port then view.host.payload.hostKey
  else none

theorem updateHost_cases {expected : RecordRevision} {payload : HostPayload}
    (updated : updateHost P state id expected payload now = .ok next) :
    ∃ view effective, checkedHost P state id expected = .ok view ∧
      requireHostFormat state payload view.host.scope = .ok () ∧
      resolveEffective P state { view.host with payload } = .ok effective ∧
      validateHost P { view.host with payload := { payload with hostKey := keptPin view effective } } = .ok () ∧
      ∃ previous record, Rewrites P state view.host.scope id
        { payload with hostKey := keptPin view effective }.toJson false now previous record next := by
  obtain ⟨view, checked, updated⟩ := Result.bind_eq_ok.mp updated
  rw [Result.check_eq_ok] at updated
  obtain ⟨format, updated⟩ := updated
  obtain ⟨effective, resolved, updated⟩ := Result.bind_eq_ok.mp updated
  rw [Result.check_eq_ok] at updated
  obtain ⟨valid, updated⟩ := updated
  exact ⟨view, effective, checked, format, resolved, Result.mapError_eq_ok.mp valid,
    replaceRow_cases updated⟩

theorem deleteHost_cases {expected : RecordRevision}
    (deleted : deleteHost P state id expected now = .ok next) :
    ∃ view, checkedHost P state id expected = .ok view ∧
      ∃ previous record, Rewrites P state view.host.scope id .null true now previous record next := by
  obtain ⟨view, checked, deleted⟩ := Result.bind_eq_ok.mp deleted
  exact ⟨view, checked, replaceRow_cases deleted⟩

theorem forgetHostKey_cases {expected : RecordRevision} {endpoint : HostEndpoint} {pin : StoredHostKey}
    (forgotten : forgetHostKey P state id expected endpoint pin now = .ok next) :
    ∃ view, checkedHost P state id expected = .ok view ∧
      ∃ previous record, Rewrites P state view.host.scope id
        { view.host.payload with hostKey := none }.toJson false now previous record next := by
  obtain ⟨view, checked, forgotten⟩ := Result.bind_eq_ok.mp forgotten
  rw [Result.check_eq_ok, Result.check_eq_ok] at forgotten
  exact ⟨view, checked, replaceRow_cases forgotten.2.2⟩

/-- The key as it is stored when this device pins it. -/
def pinnedKey (state : SyncStateV3) (candidate : StoredHostKey) (now : Nat) : StoredHostKey :=
  { candidate with pinnedAtMs := now, pinnedByDeviceId := state.deviceId }

theorem pinHostKey_cases {endpoint : HostEndpoint} {previousPin : Option StoredHostKey}
    {candidate : StoredHostKey}
    (pinned : pinHostKey P state id endpoint previousPin candidate now = .ok next) :
    ∃ view, getHost P state id = .ok view ∧ ensureScope state view.host.scope = .ok () ∧
      ensureHostAuthority state view.host = .ok () ∧ view.groupError = none ∧
      sameEndpoint view.effectivePayload endpoint = true ∧
      ((view.host.payload.hostKey.any (samePin · candidate) = true ∧ next = state) ∨
        (view.host.payload.hostKey.any (samePin · candidate) = false ∧
          validateHost P { view.host with
            payload := { view.host.payload with hostKey := some (pinnedKey state candidate now) } } = .ok () ∧
          ∃ previous record, Rewrites P state view.host.scope id
            { view.host.payload with hostKey := some (pinnedKey state candidate now) }.toJson false now
            previous record next)) := by
  obtain ⟨view, found, pinned⟩ := Result.bind_eq_ok.mp pinned
  rw [Result.check_eq_ok, Result.check_eq_ok, Result.check_eq_ok, Result.refuse_eq_ok,
    Bool.or_eq_false_iff] at pinned
  obtain ⟨scope, authority, ⟨clean, endpoint⟩, pinned⟩ := pinned
  refine ⟨view, found, scope, authority, by simpa using clean, by simpa using endpoint, ?_⟩
  simp only at pinned
  split at pinned
  · rename_i same
    cases pinned
    exact .inl ⟨same, rfl⟩
  · rename_i other
    rw [Result.check_eq_ok, Result.check_eq_ok] at pinned
    obtain ⟨_, valid, pinned⟩ := pinned
    exact .inr ⟨by simpa using other, Result.mapError_eq_ok.mp valid, replaceRow_cases pinned⟩

/-- A move between two scopes: the tombstone of the origin and the live row of the destination. -/
structure MovesHost (P : Primitives) (state : SyncStateV3) (id : String) (view : HostView)
    (destination : HostScope) (now : Nat) (source : LocalRecord) (effective : EffectiveHost)
    (record : Record) (seq : Nat) (next : SyncStateV3) : Prop where
  apart : view.host.scope ≠ destination
  vacant : ∀ row, (state.hostRecords destination)[recordKey .Host id]? = some row → row.record.deleted = true
  held : (state.hostRecords view.host.scope)[recordKey .Host id]? = some source
  resolved : resolveEffective P state view.host = .ok effective
  ordered : orderedRecord state.deviceId id (materialize effective.payload).toJson false now
    (source.record :: (((state.hostRecords destination)[recordKey .Host id]?).map (·.record)).toList) = .ok record
  transition : validateTransition P state next = .ok ()
  written : next = (state.setHostRow view.host.scope (recordKey .Host id)
      (cachedRow { record with deleted := true, payload := .null } source.seq view.host.scope)).setHostRow
    destination (recordKey .Host id) (cachedRow record seq destination)

theorem moveHost_moves {expected : RecordRevision} {destination : HostScope}
    (moved : moveHost P state id expected destination now = .ok next) :
    ∃ view, checkedHost P state id expected = .ok view ∧ ensureScope state destination = .ok () ∧
      ((view.host.scope = destination ∧ next = state) ∨
        ∃ source effective record seq,
          MovesHost P state id view destination now source effective record seq next) := by
  obtain ⟨view, checked, moved⟩ := Result.bind_eq_ok.mp moved
  rw [Result.check_eq_ok] at moved
  obtain ⟨writable, moved⟩ := moved
  refine ⟨view, checked, writable, ?_⟩
  simp only at moved
  split at moved
  · rename_i same
    cases moved
    exact .inl ⟨same, rfl⟩
  · rename_i apart
    rw [Result.check_eq_ok, Result.check_eq_ok, Result.refuse_eq_ok] at moved
    obtain ⟨vacant, _, moved⟩ := moved
    split at moved
    · cases moved
    · rename_i source held
      obtain ⟨effective, resolved, moved⟩ := Result.bind_eq_ok.mp moved
      obtain ⟨record, ordered, moved⟩ := Result.bind_eq_ok.mp moved
      rw [Result.check_eq_ok] at moved
      obtain ⟨transition, same⟩ := moved
      cases same
      refine .inr ⟨source, effective, record, _, apart, fun row found => ?_, held, resolved, ordered,
        transition, rfl⟩
      simpa [found] using vacant

/-! ## Groups -/

/-- The state on the format that has groups. -/
def promoted (state : SyncStateV3) : SyncStateV3 :=
  { state with version := max state.version GROUP_STATE_VERSION }

theorem promote_cases {scope : HostScope} {confirmed : Bool}
    (done : promote state scope confirmed now = .ok next) :
    ((scope = .Local ∨ accountGroupEnabled state = true) ∧ next = promoted state) ∨
      ∃ account old record, scope ≠ .Local ∧ accountGroupEnabled state = false ∧
        state.account = some account ∧ account.records[recordKey .Meta accountMetaId]? = some old ∧
        orderedRecord state.deviceId accountMetaId (old.record.payload.set "schema_version" (.num 4)) false
          now [old.record] = .ok record ∧
        next = { promoted state with
          account := some { account with
            records := account.records.insert (recordKey .Meta accountMetaId)
              { record := { record with kind := .Meta }, seq := old.seq, dirty := true } } } := by
  rw [promote, Result.check_eq_ok] at done
  obtain ⟨_, done⟩ := done
  simp only at done
  split at done
  · rename_i enabled
    cases done
    refine .inl ⟨?_, rfl⟩
    simpa [or_iff_not_imp_left] using enabled
  · rename_i upgrade
    simp only [Bool.not_eq_false, Bool.and_eq_true, bne_iff_ne, Bool.not_eq_eq_eq_not,
      Bool.not_true] at upgrade
    split at done
    · cases done
    · rename_i old found
      obtain ⟨account, joined, held⟩ := Option.bind_eq_some_iff.mp found
      obtain ⟨record, ordered, done⟩ := Result.bind_eq_ok.mp done
      cases done
      refine .inr ⟨account, old, record, upgrade.1, upgrade.2, joined, held, ordered, ?_⟩
      simp only [SyncStateV3.setAccountRow, joined]
      rfl

/-- What a change of the navigation order writes. -/
theorem setGroupOrder_cases {expectedIds ids : List String} {expected : Option RecordRevision}
    (ordered : setGroupOrder state expectedIds expected ids now = .ok next) :
    (orderView state).blocked = false ∧ GroupOrder.validIds ids = true ∧
      (next = state ∨
        (state.account = none ∧ next = { state with
          version := max state.version NAVIGATION_STATE_VERSION
          «local» := { state.local with groupOrder := ids } }) ∨
        ∃ account record, state.account = some account ∧
          orderedRecord state.deviceId groupOrderId (GroupOrder.toJson { schema := 1, ids }) false now
            ((account.records[recordKey .Meta groupOrderId]?).map (·.record)).toList = .ok record ∧
          next = { state with
            version := max state.version NAVIGATION_STATE_VERSION
            account := some { account with
              records := account.records.insert (recordKey .Meta groupOrderId)
                { record := { record with kind := .Meta }
                  seq := ((account.records[recordKey .Meta groupOrderId]?).map (·.seq)).getD 0
                  dirty := true } } }) := by
  rw [setGroupOrder, Result.check_eq_ok, Result.check_eq_ok, Result.check_eq_ok] at ordered
  obtain ⟨unblocked, _, valid, ordered⟩ := ordered
  obtain ⟨groups, _, ordered⟩ := Result.bind_eq_ok.mp ordered
  rw [Result.check_eq_ok] at ordered
  obtain ⟨_, ordered⟩ := ordered
  refine ⟨Result.refuse_eq_ok.mp unblocked, by simpa using valid, ?_⟩
  split at ordered
  · cases ordered
    exact .inl rfl
  · cases joined : state.account with
    | none =>
      simp only [joined] at ordered
      cases ordered
      exact .inr (.inl ⟨rfl, by simp⟩)
    | some account =>
      simp only [joined] at ordered
      obtain ⟨record, order, ordered⟩ := Result.bind_eq_ok.mp ordered
      cases ordered
      refine .inr (.inr ⟨account, record, rfl, order, ?_⟩)
      simp only [SyncStateV3.setAccountRow]

/-- What renaming a key writes: the account's slot, when the account has it, and the label of the
copy on this device. -/
theorem renameKey_cases {expected : KeySlotPayload} {name : String}
    (renamed : renameKey P state id expected name now = .ok next) :
    next = state ∨ validSlotName (Text.trim name) = true ∧
      validateKeyslot P id { expected with name := Text.trim name } = .ok () ∧
      ∃ middle, next = renameLocalKey middle id (Text.trim name) ∧
        (middle = state ∨ accountWritesBlocked state = false ∧ ∃ account previous record,
          state.account = some account ∧ account.records[recordKey .KeySlot id]? = some previous ∧
          orderedRecord state.deviceId id (KeySlotPayload.toJson { expected with name := Text.trim name })
            false now [previous.record] = .ok record ∧
          middle = { state with account := some { account with
            records := account.records.insert (recordKey .KeySlot id)
              { record := { record with kind := .KeySlot }, seq := previous.seq, dirty := true } } }) := by
  rw [renameKey, Result.check_eq_ok] at renamed
  obtain ⟨valid, renamed⟩ := renamed
  obtain ⟨key, _, renamed⟩ := Result.bind_eq_ok.mp renamed
  rw [Result.check_eq_ok, Result.check_eq_ok, Result.check_eq_ok] at renamed
  obtain ⟨_, _, allowed, renamed⟩ := renamed
  split at renamed
  · cases renamed
    exact .inl rfl
  · rw [Result.check_eq_ok] at renamed
    obtain ⟨slot, renamed⟩ := renamed
    refine .inr ⟨by simpa using valid, Result.mapError_eq_ok.mp slot, ?_⟩
    split at renamed
    · -- the account has the key, so its slot is written as well
      rename_i authority
      obtain ⟨middle, renames, same⟩ := Result.bind_eq_ok.mp renamed
      cases same
      refine ⟨middle, rfl, .inr ?_⟩
      simp only [authority, beq_self_eq_true, Bool.true_and, Result.refuse_eq_ok,
        Bool.or_eq_false_iff] at allowed
      refine ⟨allowed.1, ?_⟩
      unfold renameAccountKey at renames
      simp only at renames
      split at renames
      · cases renames
      · rename_i previous found
        obtain ⟨account, joined, held⟩ := Option.bind_eq_some_iff.mp found
        obtain ⟨record, order, wrote⟩ := Result.bind_eq_ok.mp renames
        cases wrote
        refine ⟨account, previous, record, joined, held, order, ?_⟩
        simp only [SyncStateV3.setAccountRow, joined]
    · cases renamed
      exact ⟨state, rfl, .inl rfl⟩

theorem finish_cases {before : SyncStateV3} {scope : HostScope}
    (finished : finish P before state scope now = .ok next) :
    ∃ old new, validateGroups state scope = .ok () ∧ validateTransition P before state = .ok () ∧
      listHosts P before = .ok old ∧ listHosts P state = .ok new ∧
      new.foldlM (clearPin old now) state = .ok next := by
  rw [finish, Result.check_eq_ok, Result.check_eq_ok] at finished
  obtain ⟨groups, transition, finished⟩ := finished
  obtain ⟨old, listed, finished⟩ := Result.bind_eq_ok.mp finished
  obtain ⟨new, listed', finished⟩ := Result.bind_eq_ok.mp finished
  exact ⟨old, new, groups, transition, listed, listed', finished⟩

end Sshelter.Sync
