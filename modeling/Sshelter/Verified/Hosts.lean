import Sshelter.Verified.Readable

/-! # The hosts of a library

Every host view of a snapshot is one cached row of a readable scope, and no row is
shown twice.
-/

namespace Sshelter.Sync

variable {P : Primitives}

/-- The row a host view was read from. -/
structure HostRow (P : Primitives) (state : SyncStateV3) (view : HostView) (row : LocalRecord) :
    Prop where
  scope : view.host.scope ∈ readableScopes state
  held : (state.hostRecords view.host.scope)[recordKey .Host view.host.id]? = some row
  decodes : decodeHost P row.record view.host.scope = .ok (.Live view.host)
  revision : view.revision = revision row.record

theorem decodeHost_live {record : Record} {scope : HostScope} {host : HostRecord}
    (decodes : decodeHost P record scope = .ok (.Live host)) :
    record.kind = .Host ∧ record.deleted = false ∧ host.id = record.id ∧ host.scope = scope ∧
      HostPayload.ofJson record.payload = some host.payload ∧ validateHostShape P host = .ok () := by
  rw [decodeHost, Result.check_eq_ok, Result.check_eq_ok] at decodes
  obtain ⟨kind, _, rest⟩ := decodes
  cases gone : record.deleted with
  | true => simp [gone] at rest
  | false =>
    simp only [gone, Bool.false_eq_true, if_false] at rest
    rw [Result.check_eq_ok, Result.bind_eq_ok] at rest
    obtain ⟨_, payload, read, rest⟩ := rest
    rw [Result.check_eq_ok] at rest
    obtain ⟨shape, same⟩ := rest
    have read : HostPayload.ofJson record.payload = some payload := by
      cases decoded : HostPayload.ofJson record.payload with
      | none => simp [ofDecoder, decoded] at read
      | some other => simpa [ofDecoder, decoded] using read
    cases same
    exact ⟨by simpa using kind, rfl, rfl, rfl, read, shape⟩

theorem decodeGroup_live {record : Record} {scope : HostScope} {found : GroupRecord}
    (decodes : decodeGroup record scope = .ok (.Live found)) :
    record.kind = .Group ∧ record.deleted = false ∧ found.id = record.id ∧ found.scope = scope ∧
      GroupPayload.ofJson record.payload = some found.payload := by
  rw [decodeGroup, Result.check_eq_ok, Result.check_eq_ok] at decodes
  obtain ⟨kind, _, rest⟩ := decodes
  split at rest
  · cases rest
  · rename_i live
    obtain ⟨payload, read, rest⟩ := Result.bind_eq_ok.mp rest
    rw [Result.check_eq_ok] at rest
    obtain ⟨_, same⟩ := rest
    have read : GroupPayload.ofJson record.payload = some payload := by
      cases decoded : GroupPayload.ofJson record.payload with
      | none => simp [ofDecoder, decoded] at read
      | some other => simpa [ofDecoder, decoded] using read
    cases same
    exact ⟨by simpa using kind, by simpa using live, rfl, rfl, read⟩

theorem readHost_spec {scope : HostScope} {sealed : Option (BTreeMap SealedRecord)} {key : String}
    {row : LocalRecord} {views : List HostView}
    (read : readHost P scope sealed (key, row) = .ok views) :
    views.length ≤ 1 ∧ ∀ view ∈ views, view.host.scope = scope ∧ key = recordKey .Host view.host.id ∧
      decodeHost P row.record scope = .ok (.Live view.host) ∧ view.revision = revision row.record := by
  rw [readHost, Result.check_eq_ok, validateCache_isOk] at read
  obtain ⟨cached, read⟩ := read
  by_cases grouped : row.record.kind = .Group
  · rw [if_pos grouped] at read
    cases read
    simp
  · rw [if_neg grouped, Result.bind_eq_ok] at read
    obtain ⟨decoded, found, read⟩ := read
    have decodes : decodeHost P row.record scope = .ok decoded := Result.mapError_eq_ok.mp found
    cases decoded with
    | Tombstone id =>
      cases read
      simp
    | Live host =>
      cases read
      obtain ⟨kind, _, id, placed, _⟩ := decodeHost_live decodes
      refine ⟨le_refl _, fun view member => ?_⟩
      obtain rfl := List.mem_singleton.mp member
      refine ⟨placed, ?_, decodes, rfl⟩
      rw [cached.key, kind, id]

theorem readHosts_spec {records : BTreeMap LocalRecord} {scope : HostScope}
    {sealed : Option (BTreeMap SealedRecord)} {views : List HostView}
    (read : readHosts P records scope sealed = .ok views) :
    (views.map (·.host.id)).Nodup ∧ ∀ view ∈ views, view.host.scope = scope ∧
      ∃ row, records[recordKey .Host view.host.id]? = some row ∧
        decodeHost P row.record scope = .ok (.Live view.host) ∧ view.revision = revision row.record := by
  obtain ⟨lists, mapped, flat⟩ := Result.bind_eq_ok.mp read
  obtain rfl : lists.flatten = views := Except.ok.inj flat
  constructor
  · refine Result.mapM_flatten_nodup (·.host.id) (recordKey .Host) Prod.fst
      (BTreeMap.toList_keys_nodup records) ?_ mapped
    rintro ⟨key, row⟩ _ bs ran
    obtain ⟨single, each⟩ := readHost_spec ran
    refine ⟨?_, fun view member => (each view member).2.1.symm⟩
    cases bs with
    | nil => exact List.nodup_nil
    | cons view rest =>
      obtain rfl : rest = [] := by simpa using single
      exact List.nodup_singleton _
  · intro view member
    obtain ⟨bs, inLists, inList⟩ := List.mem_flatten.mp member
    obtain ⟨⟨key, row⟩, inRecords, ran⟩ := (Result.mem_mapM mapped).mp inLists
    obtain ⟨placed, named, decodes, numbered⟩ := (readHost_spec ran).2 view inList
    refine ⟨placed, row, ?_, decodes, numbered⟩
    rw [← named]
    exact BTreeMap.mem_toList.mp inRecords

theorem readScope_spec {state : SyncStateV3} {scope : HostScope} {views : List HostView}
    (read : readScope P state scope = .ok views) :
    (views.map (·.host.id)).Nodup ∧ ∀ view ∈ views, view.host.scope = scope ∧
      ∃ row, (state.hostRecords scope)[recordKey .Host view.host.id]? = some row ∧
        decodeHost P row.record scope = .ok (.Live view.host) ∧ view.revision = revision row.record := by
  cases scope with
  | «Local» => exact readHosts_spec read
  | Space spaceId => exact readHosts_spec read

theorem readableScopes_nodup (state : SyncStateV3) : (readableScopes state).Nodup := by
  have spaces : ((state.spaces.toList.filter fun (entry : String × SpaceStateV3) =>
      entry.2.selected && !entry.2.missing).map
      fun (entry : String × SpaceStateV3) => HostScope.Space entry.1).Nodup := by
    have keys := (BTreeMap.toList_keys_nodup state.spaces).sublist
      ((List.filter_sublist (p := fun (entry : String × SpaceStateV3) =>
        entry.2.selected && !entry.2.missing)).map Prod.fst)
    have mapped := keys.map (f := HostScope.Space) (fun a b same => by cases same; rfl)
    rwa [List.map_map] at mapped
  refine List.nodup_cons.mpr ⟨?_, spaces⟩
  simp

@[simp] theorem resolveView_host (state : SyncStateV3) (view : HostView) :
    (resolveView P state view).host = view.host := by
  unfold resolveView
  split <;> rfl

@[simp] theorem resolveView_revision (state : SyncStateV3) (view : HostView) :
    (resolveView P state view).revision = view.revision := by
  unfold resolveView
  split <;> rfl

/-- The library shows every host row once. -/
theorem listHosts_spec {state : SyncStateV3} {hosts : List HostView}
    (listed : listHosts P state = .ok hosts) :
    (hosts.map fun view => (view.host.scope, view.host.id)).Nodup ∧
      ∀ view ∈ hosts, ∃ row, HostRow P state view row := by
  obtain ⟨library, read, same⟩ := Result.bind_eq_ok.mp listed
  obtain rfl : library.hosts = hosts := Except.ok.inj same
  rw [snapshot, Result.check_eq_ok] at read
  obtain ⟨_, read⟩ := read
  obtain ⟨keys, _, read⟩ := Result.bind_eq_ok.mp read
  obtain ⟨lists, scopes, read⟩ := Result.bind_eq_ok.mp read
  obtain ⟨groups, _, read⟩ := Result.bind_eq_ok.mp read
  cases read
  have placed : ∀ scope ∈ readableScopes state, ∀ views, readScope P state scope = .ok views →
      (views.map fun view => (view.host.scope, view.host.id)).Nodup ∧
        ∀ view ∈ views, (view.host.scope, view.host.id).1 = scope := by
    intro scope _ views ran
    obtain ⟨ids, each⟩ := readScope_spec ran
    refine ⟨?_, fun view member => (each view member).1⟩
    apply List.Nodup.of_map Prod.snd
    rwa [List.map_map]
  constructor
  · have distinct := Result.mapM_flatten_nodup (fun view : HostView => (view.host.scope, view.host.id))
      Prod.fst id (by simpa using readableScopes_nodup state) placed scopes
    simpa [List.map_map, Function.comp_def] using distinct
  · intro view member
    simp only [List.mem_map, exists_exists_and_eq_and] at member
    obtain ⟨base, inLists, rfl⟩ := member
    obtain ⟨views, inList, inViews⟩ := List.mem_flatten.mp inLists
    obtain ⟨scope, inScopes, ran⟩ := (Result.mem_mapM scopes).mp inList
    obtain ⟨rfl, row, held, decodes, numbered⟩ := (readScope_spec ran).2 base inViews
    refine ⟨row, ?_, ?_, ?_, ?_⟩ <;> simpa

/-! ## Writing one row -/

theorem spaceRecords_setSpaceRow_ne {state : SyncStateV3} {spaceId key id key' : String}
    {row : LocalRecord} (apart : (spaceId, key) ≠ (id, key')) :
    ((state.setSpaceRow spaceId key row).spaceRecords id)[key']? = (state.spaceRecords id)[key']? := by
  unfold SyncStateV3.setSpaceRow
  cases found : state.spaces[spaceId]? with
  | none => rfl
  | some space =>
    by_cases same : spaceId = id
    · subst same
      have other : key ≠ key' := fun equal => apart (by rw [equal])
      simp [SyncStateV3.spaceRecords, found, BTreeMap.get?_insert_ne _ _ other]
    · simp [SyncStateV3.spaceRecords, BTreeMap.get?_insert_ne _ _ same]

/-- A written host row leaves every other row as it was. -/
theorem hostRecords_setHostRow_ne {state : SyncStateV3} {scope scope' : HostScope} {key key' : String}
    {row : LocalRecord} (apart : (scope, key) ≠ (scope', key')) :
    ((state.setHostRow scope key row).hostRecords scope')[key']? = (state.hostRecords scope')[key']? := by
  cases scope with
  | «Local» =>
    cases scope' with
    | «Local» =>
      have other : key ≠ key' := fun equal => apart (by rw [equal])
      exact BTreeMap.get?_insert_ne _ _ other
    | Space id => rfl
  | Space spaceId =>
    cases scope' with
    | «Local» =>
      simp only [SyncStateV3.setHostRow, SyncStateV3.setSpaceRow, SyncStateV3.hostRecords]
      split <;> rfl
    | Space id =>
      apply spaceRecords_setSpaceRow_ne
      intro same
      cases same
      exact apart rfl

theorem spaceRecords_setSpaceRow_self {state : SyncStateV3} {spaceId key : String} {row : LocalRecord}
    {space : SpaceStateV3} (found : state.spaces[spaceId]? = some space) :
    ((state.setSpaceRow spaceId key row).spaceRecords spaceId)[key]? = some row := by
  simp [SyncStateV3.setSpaceRow, SyncStateV3.spaceRecords, found]

/-- A section that holds a row takes a write of it. -/
theorem hostRecords_setHostRow_self {state : SyncStateV3} {scope : HostScope} {key : String}
    {old row : LocalRecord} (held : (state.hostRecords scope)[key]? = some old) :
    ((state.setHostRow scope key row).hostRecords scope)[key]? = some row := by
  cases scope with
  | «Local» => exact BTreeMap.get?_insert_self _ _ _
  | Space spaceId =>
    cases found : state.spaces[spaceId]? with
    | none => simp [SyncStateV3.hostRecords, SyncStateV3.spaceRecords, found] at held
    | some space => exact spaceRecords_setSpaceRow_self found

/-! ## New revisions -/

theorem checkedSucc_eq_ok {id : String} {n m : Nat} : checkedSucc id n = .ok m ↔ n < u64Max ∧ m = n + 1 := by
  unfold checkedSucc
  by_cases room : n < u64Max
  · simp [room, eq_comm]
  · simp [room]

theorem le_foldl_max {ns : List Nat} {start n : Nat} (member : n ∈ ns ∨ n ≤ start) :
    n ≤ ns.foldl max start := by
  induction ns generalizing start with
  | nil => simpa using member
  | cons m ns ih =>
    apply ih
    rcases member with member | below
    · rcases List.mem_cons.mp member with rfl | later
      · exact .inr (le_max_right _ _)
      · exact .inl later
    · exact .inr (le_max_of_le_left below)

/-- A new revision is numbered and stamped after every earlier one. -/
theorem orderedRecord_spec {deviceId id : String} {payload : Json} {deleted : Bool} {now : Nat}
    {previous : List Record} {record : Record}
    (ordered : orderedRecord deviceId id payload deleted now previous = .ok record) :
    record.kind = .Host ∧ record.id = id ∧ record.deviceId = deviceId ∧ record.deleted = deleted ∧
      record.payload = payload ∧ 0 < record.version ∧
      ∀ old ∈ previous, old.version < record.version ∧ old.updatedAtMs < record.updatedAtMs := by
  obtain ⟨version, counted, ordered⟩ := Result.bind_eq_ok.mp ordered
  obtain ⟨_, rfl⟩ := checkedSucc_eq_ok.mp counted
  have versions : ∀ old ∈ previous, old.version < (previous.map (·.version)).foldl max 0 + 1 := by
    intro old member
    apply Nat.lt_succ_of_le
    exact le_foldl_max (.inl (List.mem_map_of_mem member))
  cases newest : (previous.map (·.updatedAtMs)).max? with
  | none =>
    simp only [newest, Result.ok_bind] at ordered
    cases ordered
    obtain rfl : previous = [] := by simpa using newest
    exact ⟨rfl, rfl, rfl, rfl, rfl, Nat.succ_pos _, by simp⟩
  | some latest =>
    have times : ∀ old ∈ previous, old.updatedAtMs ≤ latest := by
      intro old member
      exact (List.max?_le_iff newest).mp (le_refl _) _ (List.mem_map_of_mem member)
    simp only [newest] at ordered
    split at ordered
    · obtain ⟨updatedAtMs, stamped, ordered⟩ := Result.bind_eq_ok.mp ordered
      obtain ⟨_, rfl⟩ := checkedSucc_eq_ok.mp stamped
      cases ordered
      exact ⟨rfl, rfl, rfl, rfl, rfl, Nat.succ_pos _, fun old member =>
        ⟨versions old member, Nat.lt_succ_of_le (times old member)⟩⟩
    · rename_i later
      simp only [Result.ok_bind] at ordered
      cases ordered
      refine ⟨rfl, rfl, rfl, rfl, rfl, Nat.succ_pos _, fun old member => ⟨versions old member, ?_⟩⟩
      have := times old member
      simp only
      omega

/-! ## Finding a host by its id -/

theorem hostIndex_eq_ok {hosts : List HostView} {id : String} {index : Nat} :
    hostIndex hosts id = .ok index ↔
      ∃ view, hosts.zipIdx.filter (fun (view, _) => view.host.id == id) = [(view, index)] := by
  unfold hostIndex
  split
  · rename_i none_
    simp [none_]
  · rename_i view found only
    rw [only]
    simp
  · rename_i more several
    simp only [reduceCtorEq, false_iff, not_exists]
    intro view only
    exact several view index only

theorem hostIndex_id {hosts : List HostView} {id : String} {index : Nat} (h : hostIndex hosts id = .ok index) :
    ∃ view, hosts[index]? = some view ∧ view.host.id = id := by
  obtain ⟨view, only⟩ := hostIndex_eq_ok.mp h
  have member : (view, index) ∈ [(view, index)] := List.mem_singleton_self _
  rw [← only] at member
  obtain ⟨inHosts, same⟩ := List.mem_filter.mp member
  exact ⟨view, List.mk_mem_zipIdx_iff_getElem?.mp inHosts, by simpa using same⟩

/-- The host found by its id is the only one with it. -/
theorem hostIndex_only {hosts : List HostView} {id : String} {index : Nat} (h : hostIndex hosts id = .ok index)
    {view : HostView} {place : Nat} (here : hosts[place]? = some view) (named : view.host.id = id) :
    place = index := by
  obtain ⟨only, single⟩ := hostIndex_eq_ok.mp h
  have inside : (view, place) ∈ [(only, index)] := by
    rw [← single, List.mem_filter]
    exact ⟨List.mk_mem_zipIdx_iff_getElem?.mpr here, by simp [named]⟩
  exact (Prod.mk.inj (List.mem_singleton.mp inside)).2

theorem hostIndex_notFound {hosts : List HostView} {id : String} (nowhere : ∀ view ∈ hosts, view.host.id ≠ id) :
    hostIndex hosts id = .error (.HostNotFound id) := by
  unfold hostIndex
  rw [List.filter_eq_nil_iff.mpr]
  rintro ⟨view, index⟩ member
  have inside := List.mem_of_getElem? (List.mk_mem_zipIdx_iff_getElem?.mp member)
  simpa using nowhere view inside

theorem listHosts_isOk {state : SyncStateV3} : (listHosts P state).isOk = (snapshot P state).isOk :=
  Result.isOk_map

end Sshelter.Sync
