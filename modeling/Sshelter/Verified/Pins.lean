import Sshelter.Verified.Operations

/-! # Pins and the endpoints they were confirmed for

A pin is trusted for one endpoint: the host name and port the user saw when it was
confirmed.  The pin is part of the host record while the port may come from a group,
so every edit has to keep the endpoint or drop the pin.
-/

namespace Sshelter.Sync

variable {P : Primitives} {state state' next : SyncStateV3}

/-! ## Confirmations -/

/-- `pin_host_key` stored this key for the host at this endpoint. -/
structure Confirmation where
  id : String
  endpoint : HostEndpoint
  key : StoredHostKey
deriving DecidableEq, Repr

/-- Where the host is reached. -/
def endpointOf (P : Primitives) (state : SyncStateV3) (host : HostRecord) : HostEndpoint :=
  { hostname := (effectiveOf P state host).hostname, port := (effectiveOf P state host).port }

/-- Every pin of the library was confirmed for the endpoint its host has now. -/
def PinsConfirmed (P : Primitives) (log : List Confirmation) (state : SyncStateV3) : Prop :=
  ∀ host row pin, Holds P state host row → host.payload.hostKey = some pin →
    { id := host.id, endpoint := endpointOf P state host, key := pin } ∈ log

theorem PinsConfirmed.mono {log log' : List Confirmation} (more : log ⊆ log')
    (confirmed : PinsConfirmed P log state) : PinsConfirmed P log' state :=
  fun host row pin holds pinned => more (confirmed host row pin holds pinned)

theorem SameGroups.endpointOf {host : HostRecord} (same : SameGroups state state')
    (readable : host.scope ∈ readableScopes state) :
    endpointOf P state' host = endpointOf P state host := by
  simp only [Sync.endpointOf, same.effectiveOf readable]

/-! ## Writing one host -/

/-- What a row decodes to is what was written into it. -/
theorem payload_of_written {record : Record} {scope : HostScope} {host : HostRecord} {payload : HostPayload}
    (written : record.payload = payload.toJson)
    (decodes : decodeHost P record scope = .ok (.Live host)) : host.payload = payload := by
  obtain ⟨_, _, _, _, read, _⟩ := decodeHost_live decodes
  rw [written, HostPayload.ofJson_toJson] at read
  exact (Option.some.inj read).symm

theorem host_of_written {record : Record} {scope : HostScope} {host other : HostRecord} {payload : HostPayload}
    (written : record.payload = payload.toJson) (decodes : decodeHost P record scope = .ok (.Live host))
    (placed : host.scope = other.scope) (named : host.id = other.id) : host = { other with payload } := by
  have payload_eq := payload_of_written written decodes
  cases host
  simp only at placed named payload_eq
  rw [placed, named, payload_eq]

theorem live_of_decodes {record : Record} {scope : HostScope} {host : HostRecord}
    (decodes : decodeHost P record scope = .ok (.Live host)) : record.deleted = false :=
  (decodeHost_live decodes).2.1

/-- A written host row has to bring its own confirmation; every other pin keeps its own. -/
theorem PinsConfirmed.setHostRow {log : List Confirmation} {scope : HostScope} {id : String}
    {row : LocalRecord} (confirmed : PinsConfirmed P log state)
    (own : ∀ host pin, scope ∈ readableScopes state → host.scope = scope → host.id = id →
      decodeHost P row.record scope = .ok (.Live host) → host.payload.hostKey = some pin →
      { id, endpoint := endpointOf P state host, key := pin } ∈ log) :
    PinsConfirmed P log (state.setHostRow scope (recordKey .Host id) row) := by
  intro host row' pin holds pinned
  have readable : host.scope ∈ readableScopes state := by
    rw [← SameScopes.setHostRow.readable]
    exact holds.scope
  rw [SameGroups.setHostRow.endpointOf readable]
  obtain ⟨rfl, rfl, rfl⟩ | before := holds.of_setHostRow
  · exact own host pin readable rfl rfl holds.decodes pinned
  · exact confirmed host row' pin before pinned

/-- A row without a pin needs no confirmation. -/
theorem PinsConfirmed.setUnpinned {log : List Confirmation} {scope : HostScope} {id : String}
    {row : LocalRecord} (confirmed : PinsConfirmed P log state)
    (unpinned : ∀ host, decodeHost P row.record scope = .ok (.Live host) → host.payload.hostKey = none) :
    PinsConfirmed P log (state.setHostRow scope (recordKey .Host id) row) := by
  apply confirmed.setHostRow
  intro host pin _ _ _ decodes pinned
  rw [unpinned host decodes] at pinned
  cases pinned

theorem Rewrites.unpinned {scope : HostScope} {id : String} {payload : HostPayload} {deleted : Bool}
    {now : Nat} {previous : LocalRecord} {record : Record} {log : List Confirmation}
    (rewrites : Rewrites P state scope id payload.toJson deleted now previous record next)
    (unpinned : payload.hostKey = none) (confirmed : PinsConfirmed P log state) :
    PinsConfirmed P log next := by
  rw [rewrites.written]
  apply confirmed.setUnpinned
  intro host decodes
  obtain ⟨_, _, _, _, written, _⟩ := orderedRecord_spec rewrites.ordered
  rw [payload_of_written written decodes]
  exact unpinned

section Hosts
variable {log : List Confirmation} {id : String} {now : Nat}

theorem createHost_pins {scope : HostScope} {payload : HostPayload}
    (created : createHost P state id scope payload now = .ok next) (confirmed : PinsConfirmed P log state) :
    PinsConfirmed P log next := by
  obtain ⟨record, creates⟩ := createHost_cases created
  rw [creates.written]
  apply confirmed.setUnpinned
  intro host decodes
  obtain ⟨_, _, _, _, written, _⟩ := orderedRecord_spec creates.ordered
  rw [payload_of_written written decodes]

theorem deleteHost_pins {expected : RecordRevision}
    (deleted : deleteHost P state id expected now = .ok next) (confirmed : PinsConfirmed P log state) :
    PinsConfirmed P log next := by
  obtain ⟨view, _, previous, record, rewrites⟩ := deleteHost_cases deleted
  rw [rewrites.written]
  apply confirmed.setUnpinned
  intro host decodes
  obtain ⟨_, _, _, gone, _⟩ := orderedRecord_spec rewrites.ordered
  have live := live_of_decodes decodes
  rw [cachedRow, gone] at live
  cases live

theorem forgetHostKey_pins {expected : RecordRevision} {endpoint : HostEndpoint} {pin : StoredHostKey}
    (forgotten : forgetHostKey P state id expected endpoint pin now = .ok next)
    (confirmed : PinsConfirmed P log state) : PinsConfirmed P log next := by
  obtain ⟨view, _, previous, record, rewrites⟩ := forgetHostKey_cases forgotten
  exact rewrites.unpinned rfl confirmed

/-- An update keeps a pin only with its endpoint. -/
theorem updateHost_pins {expected : RecordRevision} {payload : HostPayload}
    (updated : updateHost P state id expected payload now = .ok next)
    (confirmed : PinsConfirmed P log state) : PinsConfirmed P log next := by
  obtain ⟨view, effective, checked, _, resolved, valid, previous, record, rewrites⟩ :=
    updateHost_cases updated
  obtain ⟨_, row, _, _, shown, named⟩ := getHost_shown (checkedHost_cases checked).1
  obtain ⟨_, _, _, _, written, _⟩ := orderedRecord_spec rewrites.ordered
  rw [rewrites.written]
  apply confirmed.setHostRow
  intro host pin readable placed same decodes pinned
  have host_eq := host_of_written written decodes placed (same.trans named.symm)
  have kept : keptPin view effective = some pin := by
    rw [host_eq] at pinned
    exact pinned
  have resolved' : effectiveOf P state host =
      { effective.payload with hostKey := keptPin view effective } := by
    rw [host_eq]
    apply effectiveOf_withKey resolved
    intro pin equal
    have pinned := validateHost_pin valid equal
    exact pinned
  unfold keptPin at kept
  split at kept
  · rename_i endpoint
    simp only [Bool.and_eq_true, beq_iff_eq, shown.effective] at endpoint
    have before := confirmed view.host row pin shown.holds kept
    have endpoint_eq : endpointOf P state host = endpointOf P state view.host := by
      rw [endpointOf, endpointOf, resolved', endpoint.1, endpoint.2]
    rw [endpoint_eq, ← named]
    exact before
  · cases kept

/-- A moved host takes its settings along. -/
theorem moveHost_pins {expected : RecordRevision} {destination : HostScope}
    (moved : moveHost P state id expected destination now = .ok next)
    (confirmed : PinsConfirmed P log state) : PinsConfirmed P log next := by
  obtain ⟨view, checked, _, ⟨_, rfl⟩ | ⟨source, effective, record, seq, moves⟩⟩ := moveHost_moves moved
  · exact confirmed
  obtain ⟨_, row, _, _, shown, named⟩ := getHost_shown (checkedHost_cases checked).1
  obtain ⟨_, _, _, _, written, _⟩ := orderedRecord_spec moves.ordered
  rw [moves.written]
  have cleared : PinsConfirmed P log (state.setHostRow view.host.scope (recordKey .Host id)
      (cachedRow { record with deleted := true, payload := .null } source.seq view.host.scope)) := by
    apply confirmed.setUnpinned
    intro host decodes
    cases live_of_decodes decodes
  apply cleared.setHostRow
  intro host pin _ placed same decodes pinned
  have payload_eq := payload_of_written written decodes
  have resolved := effectiveOf_eq moves.resolved
  -- the materialized settings are the ones the host was shown with
  have endpoint_eq : endpointOf P (state.setHostRow view.host.scope (recordKey .Host id)
      (cachedRow { record with deleted := true, payload := .null } source.seq view.host.scope)) host =
      endpointOf P state view.host := by
    have own : .Port ∉ host.payload.inherit := by simp [payload_eq, materialize]
    rw [endpointOf, endpointOf, effectiveOf_port own, effectiveOf_hostname, resolved, payload_eq]
    rfl
  have kept : view.host.payload.hostKey = some pin := by
    have key : host.payload.hostKey = view.host.payload.hostKey := by
      rw [payload_eq, ← effectiveOf_hostKey, resolved]
      rfl
    rw [← key]
    exact pinned
  rw [endpoint_eq, ← named]
  exact confirmed view.host row pin shown.holds kept

/-- A new pin is confirmed for the endpoint its host is shown with. -/
theorem pinHostKey_pins {endpoint : HostEndpoint} {previousPin : Option StoredHostKey}
    {candidate : StoredHostKey}
    (pinned : pinHostKey P state id endpoint previousPin candidate now = .ok next)
    (confirmed : PinsConfirmed P log state)
    (noted : ∀ view, getHost P state id = .ok view →
      view.host.payload.hostKey.any (samePin · candidate) = false →
      { id, endpoint, key := pinnedKey state candidate now } ∈ log) : PinsConfirmed P log next := by
  obtain ⟨view, found, _, _, clean, same, ⟨_, rfl⟩ | ⟨other, valid, previous, record, rewrites⟩⟩ :=
    pinHostKey_cases pinned
  · exact confirmed
  obtain ⟨_, row, _, _, shown, named⟩ := getHost_shown found
  obtain ⟨_, _, _, _, written, _⟩ := orderedRecord_spec rewrites.ordered
  rw [rewrites.written]
  apply confirmed.setHostRow
  intro host pin readable placed sameId decodes pin_eq
  have host_eq := host_of_written written decodes placed (sameId.trans named.symm)
  obtain ⟨effective, resolved⟩ := resolves_of_groupError (shown.groupError.symm.trans clean)
  have resolved' : effectiveOf P state host =
      { effective.payload with hostKey := some (pinnedKey state candidate now) } := by
    rw [host_eq]
    apply effectiveOf_withKey resolved
    intro pin equal
    have pinned := validateHost_pin valid equal
    exact pinned
  have endpoint_eq : endpointOf P state host = endpoint := by
    simp only [sameEndpoint, Bool.and_eq_true, beq_iff_eq, shown.effective, effectiveOf_eq resolved] at same
    rw [endpointOf, resolved']
    cases endpoint
    simp only at same
    rw [same.1, same.2]
  have key_eq : pinnedKey state candidate now = pin := by
    rw [host_eq] at pin_eq
    exact Option.some.inj pin_eq
  rw [endpoint_eq, ← key_eq]
  exact noted view found other

end Hosts

/-! ## Group edits -/

/-- Every pinned host was there before with the same pin and host name. -/
def PinsFrom (P : Primitives) (before next : SyncStateV3) : Prop :=
  ∀ host row pin, Holds P next host row → host.payload.hostKey = some pin →
    ∃ old oldRow, Holds P before old oldRow ∧ old.scope = host.scope ∧ old.id = host.id ∧
      old.payload.hostKey = some pin ∧ old.payload.hostname = host.payload.hostname

theorem PinsFrom.refl (state : SyncStateV3) : PinsFrom P state state :=
  fun host row _ holds pinned => ⟨host, row, holds, rfl, rfl, pinned, rfl⟩

theorem PinsFrom.trans {first second third : SyncStateV3} (left : PinsFrom P first second)
    (right : PinsFrom P second third) : PinsFrom P first third := by
  intro host row pin holds pinned
  obtain ⟨middle, middleRow, holds, scope, id, pinned, hostname⟩ := right host row pin holds pinned
  obtain ⟨old, oldRow, holds, scope', id', pinned, hostname'⟩ := left middle middleRow pin holds pinned
  exact ⟨old, oldRow, holds, scope'.trans scope, id'.trans id, pinned, hostname'.trans hostname⟩

/-- The host rows have not changed. -/
structure SameHosts (state state' : SyncStateV3) : Prop extends SameScopes state state' where
  hosts : ∀ scope id,
    (state'.hostRecords scope)[recordKey .Host id]? = (state.hostRecords scope)[recordKey .Host id]?

theorem SameHosts.holds {host : HostRecord} {row : LocalRecord} (same : SameHosts state state')
    (holds : Holds P state' host row) : Holds P state host row :=
  ⟨same.readable ▸ holds.scope, by rw [← same.hosts]; exact holds.held, holds.decodes⟩

theorem SameHosts.pinsFrom (same : SameHosts state state') : PinsFrom P state state' :=
  fun host row _ holds pinned => ⟨host, row, same.holds holds, rfl, rfl, pinned, rfl⟩

theorem SameHosts.trans {first second third : SyncStateV3} (left : SameHosts first second)
    (right : SameHosts second third) : SameHosts first third :=
  ⟨left.toSameScopes.trans right.toSameScopes,
    fun scope id => (right.hosts scope id).trans (left.hosts scope id)⟩

theorem SameHosts.setGroupRow {scope : HostScope} {id : String} {row : LocalRecord} :
    SameHosts state (state.setGroupRow scope (recordKey .Group id) row) :=
  ⟨.setGroupRow, fun _ _ => hostRecords_setGroupRow⟩

/-- The same spaces, and the same hosts and groups of this device. -/
theorem sections_of_equal (spaces : state'.spaces = state.spaces)
    (hosts : state'.local.hosts = state.local.hosts) (groups : state'.local.groups = state.local.groups) :
    SameHosts state state' ∧ SameGroups state state' := by
  have rows (spaceId : String) : state'.spaceRecords spaceId = state.spaceRecords spaceId := by
    simp only [SyncStateV3.spaceRecords, spaces]
  have scopes : SameScopes state state' := by
    refine ⟨by simp only [readableScopes, spaces], fun scope => ?_⟩
    cases scope <;> simp only [scopeSealed, SyncStateV3.spaceSealed, spaces]
  constructor
  · refine ⟨scopes, fun scope id => ?_⟩
    cases scope <;> simp only [SyncStateV3.hostRecords, hosts, rows]
  · refine ⟨scopes, fun scope id => ?_⟩
    cases scope <;> simp only [SyncStateV3.groupRows, groups, rows]

theorem promote_sections {scope : HostScope} {confirmed : Bool} {now : Nat}
    (promoted : promote state scope confirmed now = .ok next) :
    SameHosts state next ∧ SameGroups state next := by
  obtain ⟨_, rfl⟩ | ⟨_, _, _, _, _, _, _, _, rfl⟩ := promote_cases promoted
  · exact sections_of_equal rfl rfl rfl
  · exact sections_of_equal rfl rfl rfl

/-! ### Clearing pins -/

section Clearing
variable {old : List HostView} {now : Nat}

/-- What clearing writes: the same row without its pin. -/
theorem clearPin_writes {view : HostView} (cleared : clearPin old now state view = .ok next) :
    (next = state ∧ (portChanged old view = true →
        (state.hostRecords view.host.scope)[recordKey .Host view.host.id]? = none)) ∨
      ∃ row record, portChanged old view = true ∧
        (state.hostRecords view.host.scope)[recordKey .Host view.host.id]? = some row ∧
        record.payload = { view.host.payload with hostKey := none }.toJson ∧
        record.kind = row.record.kind ∧ record.id = row.record.id ∧
        record.deleted = row.record.deleted ∧ record.version = row.record.version + 1 ∧
        record.deviceId = state.deviceId ∧
        next = state.setHostRow view.host.scope (recordKey .Host view.host.id)
          (cachedRow record row.seq view.host.scope) := by
  unfold clearPin at cleared
  split at cleared
  · rename_i same
    cases cleared
    exact .inl ⟨rfl, fun changed => by simp [changed] at same⟩
  · rename_i changed
    simp only at cleared
    split at cleared
    · rename_i absent
      cases cleared
      exact .inl ⟨rfl, fun _ => absent⟩
    · rename_i row held
      obtain ⟨version, counted, cleared⟩ := Result.bind_eq_ok.mp cleared
      obtain ⟨later, _, cleared⟩ := Result.bind_eq_ok.mp cleared
      obtain ⟨_, rfl⟩ := checkedSucc_eq_ok.mp counted
      cases cleared
      let record : Record :=
        { row.record with
          version := row.record.version + 1, updatedAtMs := max now later, deviceId := state.deviceId
          payload := HostPayload.toJson { view.host.payload with hostKey := none } }
      exact .inr ⟨row, record, by simpa using changed, held, rfl, rfl, rfl, rfl, rfl, rfl, rfl⟩

/-- What the pass after a merge writes over a row: the same record without its pin, at its next revision. -/
structure Unpins (previous record : Record) (deviceId : String) : Prop where
  kind : record.kind = previous.kind
  id : record.id = previous.id
  deleted : record.deleted = previous.deleted
  payload : record.payload = previous.payload.set "host_key" .null
  version : record.version = previous.version + 1
  device : record.deviceId = deviceId

theorem invalidatePin_cases {view : HostView} (ran : invalidatePin old state view = .ok next) :
    (next = state ∧ (pinStale old view = true →
        (state.hostRecords view.host.scope)[recordKey .Host view.host.id]? = none)) ∨
      ∃ previous record,
        (state.hostRecords view.host.scope)[recordKey .Host view.host.id]? = some previous ∧
        Unpins previous.record record state.deviceId ∧
        next = state.setHostRow view.host.scope (recordKey .Host view.host.id)
          (cachedRow record previous.seq view.host.scope) := by
  unfold invalidatePin at ran
  split at ran
  · rename_i fresh
    cases ran
    exact .inl ⟨rfl, fun stale => by simp [stale] at fresh⟩
  · simp only at ran
    split at ran
    · rename_i absent
      cases ran
      exact .inl ⟨rfl, fun _ => absent⟩
    · rename_i previous held
      obtain ⟨version, counted, ran⟩ := Result.bind_eq_ok.mp ran
      obtain ⟨updatedAtMs, _, ran⟩ := Result.bind_eq_ok.mp ran
      obtain ⟨_, rfl⟩ := checkedSucc_eq_ok.mp counted
      cases ran
      let record : Record :=
        { previous.record with
          payload := previous.record.payload.set "host_key" .null, version := previous.record.version + 1
          updatedAtMs, deviceId := state.deviceId }
      exact .inr ⟨previous, record, held, ⟨rfl, rfl, rfl, rfl, rfl, rfl⟩, rfl⟩

/-- What a step of a pass over the hosts does: a stale host is rewritten without its pin. -/
def DropsStale (P : Primitives) (stale : HostView → Bool)
    (step : SyncStateV3 → HostView → Repo SyncStateV3) : Prop :=
  ∀ state view next, step state view = .ok next →
    (next = state ∧ (stale view = true →
        (state.hostRecords view.host.scope)[recordKey .Host view.host.id]? = none)) ∨
      ∃ row, next = state.setHostRow view.host.scope (recordKey .Host view.host.id) row ∧
        ∀ host, decodeHost P row.record view.host.scope = .ok (.Live host) → host.payload.hostKey = none

/-- A pin that survives the pass is an old row's, and its host was not found stale. -/
theorem DropsStale.pins {stale : HostView → Bool} {step : SyncStateV3 → HostView → Repo SyncStateV3}
    (drops : DropsStale P stale step) {candidate : SyncStateV3} {new : List HostView}
    (ran : new.foldlM step candidate = .ok next) :
    SameGroups candidate next ∧ ∀ host row pin, Holds P next host row → host.payload.hostKey = some pin →
      Holds P candidate host row ∧ ∀ view ∈ new, view.host.scope = host.scope → view.host.id = host.id →
        stale view = false := by
  refine Result.foldlM_invariant (fun done state => SameGroups candidate state ∧
    ∀ host row pin, Holds P state host row → host.payload.hostKey = some pin →
      Holds P candidate host row ∧ ∀ view ∈ done, view.host.scope = host.scope → view.host.id = host.id →
        stale view = false) ⟨.refl _, fun host row _ holds _ => ⟨holds, by simp⟩⟩ ?_ ran
  rintro done state view rest state' _ ⟨groups, pins⟩ step
  obtain ⟨rfl, absent⟩ | ⟨row, rfl, unpinned⟩ := drops _ _ _ step
  · refine ⟨groups, fun host row pin holds pinned => ?_⟩
    obtain ⟨before, others⟩ := pins host row pin holds pinned
    refine ⟨before, fun other member scope id => ?_⟩
    obtain earlier | here := List.mem_append.mp member
    · exact others other earlier scope id
    · obtain rfl := List.mem_singleton.mp here
      by_contra changed
      have gone := absent (by simpa using changed)
      rw [scope, id, holds.held] at gone
      cases gone
  · refine ⟨groups.trans .setHostRow, fun host row' pin holds pinned => ?_⟩
    obtain ⟨placed, _, rfl⟩ | before := holds.of_setHostRow
    · rw [unpinned host (placed ▸ holds.decodes)] at pinned
      cases pinned
    · obtain ⟨earlier, others⟩ := pins host row' pin before pinned
      refine ⟨earlier, fun other member scope id => ?_⟩
      obtain inDone | here := List.mem_append.mp member
      · exact others other inDone scope id
      · -- the rewritten host itself has lost its pin
        obtain rfl := List.mem_singleton.mp here
        have readable : other.host.scope ∈ readableScopes state := scope ▸ before.scope
        have held' := holds.held
        rw [← scope, ← id, hostRecords_setHostRow_readable readable] at held'
        cases held'
        rw [unpinned host (scope ▸ holds.decodes)] at pinned
        cases pinned

theorem clearPin_drops : DropsStale P (portChanged old) (clearPin old now) := by
  intro state view next cleared
  obtain unchanged | ⟨row, record, _, _, written, _, _, _, _, _, rfl⟩ := clearPin_writes cleared
  · exact .inl unchanged
  · refine .inr ⟨_, rfl, fun host decodes => ?_⟩
    rw [payload_of_written written decodes]

/-- The host shown before, looked up the way both passes do. -/
theorem find_shown {before : SyncStateV3} {host : HostRecord} {row : LocalRecord} {scope : HostScope}
    {id : String} (listed : listHosts P before = .ok old) (holds : Holds P before host row)
    (placed : host.scope = scope) (named : host.id = id) :
    ∃ view otherRow, (old.find? fun other => other.host.id == id && other.host.scope == scope) = some view ∧
      view.host = host ∧ Shown P before view otherRow := by
  obtain ⟨oldView, inOld, same, _⟩ := exists_view listed holds
  cases found : old.find? fun other => other.host.id == id && other.host.scope == scope with
  | none =>
    have none_such := List.find?_eq_none.mp found oldView inOld
    simp [same, placed, named] at none_such
  | some other =>
    have matching := List.find?_some found
    simp only [Bool.and_eq_true, beq_iff_eq] at matching
    obtain ⟨otherRow, shown⟩ := shown_of_mem listed (List.mem_of_find?_eq_some found)
    have host_eq := (shown.holds.unique holds (matching.2.trans placed.symm)
      (matching.1.trans named.symm)).1
    exact ⟨other, otherRow, rfl, host_eq, shown⟩

/-- The shown port of a host that kept its pin is the old one. -/
theorem port_of_unchanged {before candidate : SyncStateV3} {new : List HostView} {view : HostView}
    {host : HostRecord} {row : LocalRecord} (listed : listHosts P before = .ok old)
    (listed' : listHosts P candidate = .ok new) (member : view ∈ new) (holds : Holds P before host row)
    (scope : host.scope = view.host.scope) (id : host.id = view.host.id)
    (pinned : view.host.payload.hostKey.isSome = true) (unchanged : portChanged old view = false) :
    (effectiveOf P candidate view.host).port = (effectiveOf P before host).port := by
  obtain ⟨_, shown⟩ := shown_of_mem listed' member
  obtain ⟨other, _, found, rfl, otherShown⟩ := find_shown listed holds scope id
  simp only [portChanged, pinned, found, Bool.true_and, Option.any_some, bne_eq_false_iff_eq] at unchanged
  rw [← shown.effective, ← unchanged, otherShown.effective]

/-- Every group edit ends by dropping the pins whose port changed. -/
theorem finish_pins {log : List Confirmation} {before candidate : SyncStateV3} {scope : HostScope}
    (finished : finish P before candidate scope now = .ok next) (pins : PinsFrom P before candidate)
    (confirmed : PinsConfirmed P log before) : PinsConfirmed P log next := by
  obtain ⟨old, new, _, _, listed, listed', cleared⟩ := finish_cases finished
  obtain ⟨groups, survivors⟩ := (clearPin_drops (P := P)).pins cleared
  intro host row pin holds pinned
  obtain ⟨inCandidate, unchanged⟩ := survivors host row pin holds pinned
  obtain ⟨oldHost, oldRow, oldHolds, oldScope, oldId, oldPinned, hostname⟩ :=
    pins host row pin inCandidate pinned
  obtain ⟨view, member, rfl, _⟩ := exists_view listed' inCandidate
  have port := port_of_unchanged listed listed' member oldHolds oldScope oldId
    (by simp [pinned]) (unchanged view member rfl rfl)
  have endpoint_eq : endpointOf P next view.host = endpointOf P before oldHost := by
    rw [groups.endpointOf inCandidate.scope, endpointOf, endpointOf, port, effectiveOf_hostname,
      effectiveOf_hostname, hostname]
  rw [endpoint_eq, ← oldId]
  exact confirmed oldHost oldRow pin oldHolds oldPinned

end Clearing

/-! ### The edits -/

section Groups
variable {log : List Confirmation} {id : String} {now : Nat}

theorem putGroup_sections {origin : SyncStateV3} {scope : HostScope} {payload : Json} {deleted : Bool}
    (put : putGroup origin state scope id payload deleted now = .ok next) : SameHosts state next := by
  obtain ⟨rows, _, put⟩ := Result.bind_eq_ok.mp put
  split at put
  · cases put
  · obtain ⟨record, _, put⟩ := Result.bind_eq_ok.mp put
    cases put
    exact .setGroupRow

theorem createdGroup_sections {scope : HostScope} {payload : GroupPayload} {confirmed : Bool}
    (created : createdGroup state id scope payload confirmed now = .ok next) : SameHosts state next := by
  rw [createdGroup, Result.check_eq_ok, Result.check_eq_ok, Result.check_eq_ok] at created
  obtain ⟨_, _, _, created⟩ := created
  obtain ⟨upgraded, promoted, created⟩ := Result.bind_eq_ok.mp created
  obtain ⟨record, _, created⟩ := Result.bind_eq_ok.mp created
  cases created
  exact (promote_sections promoted).1.trans .setGroupRow

theorem updatedGroup_sections {scope : HostScope} {expected : RecordRevision} {payload : GroupPayload}
    (updated : updatedGroup state id expected payload now = .ok (scope, next)) : SameHosts state next := by
  obtain ⟨view, _, updated⟩ := Result.bind_eq_ok.mp updated
  rw [Result.check_eq_ok] at updated
  obtain ⟨_, updated⟩ := updated
  obtain ⟨_, put, same⟩ := Result.bind_eq_ok.mp updated
  cases same
  exact putGroup_sections put

/-- Deleting groups is a series of host updates, then of group rows. -/
theorem deletedGroups_induction {token : RepositorySnapshot → String} {scope : HostScope}
    {expected : RecordRevision} {reviewed : Option String} (holds : SyncStateV3 → Prop)
    (deleted : deletedGroups P token state id expected reviewed now = .ok (scope, next))
    (start : holds state)
    (hosts : ∀ current id expected payload after, holds current →
      updateHost P current id expected payload now = .ok after → holds after)
    (groups : ∀ current after, holds current → SameHosts current after → holds after) : holds next := by
  obtain ⟨root, _, deleted⟩ := Result.bind_eq_ok.mp deleted
  obtain ⟨library, _, deleted⟩ := Result.bind_eq_ok.mp deleted
  rw [Result.check_eq_ok, Result.check_eq_ok] at deleted
  obtain ⟨_, _, deleted⟩ := deleted
  obtain ⟨listed, _, deleted⟩ := Result.bind_eq_ok.mp deleted
  obtain ⟨emptied, members, deleted⟩ := Result.bind_eq_ok.mp deleted
  obtain ⟨removed, rows, same⟩ := Result.bind_eq_ok.mp deleted
  cases same
  have left : holds emptied := by
    refine Result.foldlM_invariant (fun _ => holds) start ?_ members
    intro _ current view _ after _ before materialized
    obtain ⟨resolved, _, updated⟩ := Result.bind_eq_ok.mp materialized
    exact hosts _ _ _ _ _ before updated
  refine Result.foldlM_invariant (fun _ => holds) left ?_ rows
  intro _ current group _ after _ before removed
  obtain ⟨found, _, put⟩ := Result.bind_eq_ok.mp removed
  exact groups _ _ before (putGroup_sections put)

theorem createGroup_pins {scope : HostScope} {payload : GroupPayload} {confirmedUpgrade : Bool}
    (created : createGroup P state id scope payload confirmedUpgrade now = .ok next)
    (confirmed : PinsConfirmed P log state) : PinsConfirmed P log next := by
  obtain ⟨candidate, created, finished⟩ := Result.bind_eq_ok.mp created
  exact finish_pins finished (createdGroup_sections created).pinsFrom confirmed

theorem updateGroup_pins {expected : RecordRevision} {payload : GroupPayload}
    (updated : updateGroup P state id expected payload now = .ok next)
    (confirmed : PinsConfirmed P log state) : PinsConfirmed P log next := by
  obtain ⟨⟨scope, candidate⟩, updated, finished⟩ := Result.bind_eq_ok.mp updated
  exact finish_pins finished (updatedGroup_sections updated).pinsFrom confirmed

/-- A pin that survives an update is the old one, with the old host name. -/
theorem updateHost_pinsFrom {expected : RecordRevision} {payload : HostPayload}
    (updated : updateHost P state id expected payload now = .ok next) : PinsFrom P state next := by
  obtain ⟨view, effective, checked, _, resolved, _, previous, record, rewrites⟩ := updateHost_cases updated
  obtain ⟨_, row, _, _, shown, named⟩ := getHost_shown (checkedHost_cases checked).1
  obtain ⟨_, _, _, _, written, _⟩ := orderedRecord_spec rewrites.ordered
  rw [rewrites.written]
  intro host row' pin holds pinned
  obtain ⟨placed, same, rfl⟩ | before := holds.of_setHostRow
  · have payload_eq := payload_of_written written holds.decodes
    rw [payload_eq] at pinned ⊢
    refine ⟨view.host, row, shown.holds, placed.symm, named.trans same.symm, ?_⟩
    change keptPin view effective = some pin at pinned
    unfold keptPin at pinned
    split at pinned
    · rename_i endpoint
      simp only [Bool.and_eq_true, beq_iff_eq, shown.effective, effectiveOf_hostname,
        ← effectiveOf_eq resolved] at endpoint
      exact ⟨pinned, endpoint.1⟩
    · cases pinned
  · exact ⟨host, row', before, rfl, rfl, pinned, rfl⟩

theorem deleteGroup_pins {token : RepositorySnapshot → String} {expected : RecordRevision}
    {reviewed : Option String}
    (deleted : deleteGroup P token state id expected reviewed now = .ok next)
    (confirmed : PinsConfirmed P log state) : PinsConfirmed P log next := by
  obtain ⟨⟨scope, candidate⟩, deleted, finished⟩ := Result.bind_eq_ok.mp deleted
  apply finish_pins finished ?_ confirmed
  apply deletedGroups_induction (PinsFrom P state) deleted (.refl state)
  · intro current id expected payload after pins updated
    exact pins.trans (updateHost_pinsFrom updated)
  · intro current after pins same
    exact pins.trans same.pinsFrom

end Groups

end Sshelter.Sync
