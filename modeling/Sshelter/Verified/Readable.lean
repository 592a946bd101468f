import Sshelter.Sync.Repository.Snapshot

/-! # When the library can be read

`snapshot` fails on the header, on a key of this device, or on one cached row; it
never fails on what the rows say about each other.  `Readable` lists the
conditions row by row, so that replacing a section only asks about the rows that
changed.
-/

namespace Sshelter.Sync

variable {P : Primitives}

/-! ## Rows -/

structure CacheValid (key : String) (record : Record) : Prop where
  «public» : record.kind.isSecret = false
  key : key = recordKey record.kind record.id
  version : record.version ≠ 0
  device : isSlotId record.deviceId = true

theorem validateCache_isOk {key : String} {row : LocalRecord} :
    validateCache key row = .ok () ↔ CacheValid key row.record := by
  simp only [validateCache, Result.refuse_bind_eq_ok, Result.refuse_eq_ok, bne_eq_false_iff_eq,
    Bool.or_eq_false_iff, beq_eq_false_iff_ne, Bool.not_eq_false']
  constructor
  · rintro ⟨clear, named, numbered, authored⟩
    exact ⟨clear, named, numbered, authored⟩
  · rintro ⟨clear, named, numbered, authored⟩
    exact ⟨clear, named, numbered, authored⟩

/-- A row of the account section that `list_keys` accepts. -/
structure AccountRowReadable (P : Primitives) (key : String) (record : Record) : Prop where
  cached : CacheValid key record
  kind : record.kind ≠ .Host
  keyslot : record.kind = .KeySlot → (decodeKeyslot P record).isOk = true

/-- A row that `read_hosts` accepts. -/
structure HostRowReadable (P : Primitives) (scope : HostScope) (key : String) (record : Record) :
    Prop where
  cached : CacheValid key record
  decodes : record.kind ≠ .Group → (decodeHost P record scope).isOk = true

/-- A row that `list_groups` accepts. -/
structure GroupRowReadable (scope : HostScope) (key : String) (record : Record) : Prop where
  cached : record.kind = .Group → CacheValid key record
  decodes : record.kind = .Group → (decodeGroup record scope).isOk = true

theorem accountKey_isOk {keys : BTreeMap LocalKeyMetadata} {record : Record} :
    (accountKey P keys record).isOk = (decodeKeyslot P record).isOk := by
  cases decoded : decodeKeyslot P record with
  | error e => simp [accountKey, Validated.toRepo, decoded, Except.mapError]
  | ok value => cases value <;> simp [accountKey, Validated.toRepo, decoded, Except.mapError]

theorem addAccountKey_isOk {keys : BTreeMap LocalKeyMetadata} {views : BTreeMap KeyView}
    {entry : String × LocalRecord} :
    (addAccountKey P keys views entry).isOk = true ↔ AccountRowReadable P entry.1 entry.2.record := by
  obtain ⟨key, row⟩ := entry
  rw [addAccountKey, Result.isOk_check, Result.isOk_check, validateCache_isOk, Result.refuse_eq_ok,
    beq_eq_false_iff_ne]
  by_cases slot : row.record.kind = .KeySlot
  · simp only [slot, bne_self_eq_false, Bool.false_eq_true, if_false, Result.isOk_map,
      accountKey_isOk]
    exact ⟨fun ⟨cached, _, decodes⟩ => ⟨cached, by simp [slot], fun _ => decodes⟩,
      fun ⟨cached, _, decodes⟩ => ⟨cached, by simp, decodes slot⟩⟩
  · have other : (row.record.kind != .KeySlot) = true := by simpa using slot
    simp only [other, if_true, Result.isOk_ok, and_true]
    exact ⟨fun ⟨cached, kind⟩ => ⟨cached, kind, fun h => absurd h slot⟩,
      fun ⟨cached, kind, _⟩ => ⟨cached, kind⟩⟩

theorem readHost_isOk {scope : HostScope} {sealed : Option (BTreeMap SealedRecord)}
    {entry : String × LocalRecord} :
    (readHost P scope sealed entry).isOk = true ↔ HostRowReadable P scope entry.1 entry.2.record := by
  obtain ⟨key, row⟩ := entry
  rw [readHost, Result.isOk_check, validateCache_isOk]
  by_cases grouped : row.record.kind = .Group
  · simp only [grouped, if_true, Result.isOk_ok, and_true]
    exact ⟨fun cached => ⟨cached, fun h => absurd grouped h⟩, fun readable => readable.cached⟩
  · simp only [grouped, if_false, Result.isOk_bind, Validated.toRepo, Result.mapError_eq_ok]
    constructor
    · rintro ⟨cached, value, decoded, _⟩
      exact ⟨cached, fun _ => Result.isOk_iff.mpr ⟨value, decoded⟩⟩
    · rintro ⟨cached, decodes⟩
      obtain ⟨value, decoded⟩ := Result.isOk_iff.mp (decodes grouped)
      refine ⟨cached, value, decoded, ?_⟩
      cases value <;> rfl

theorem readGroup_isOk {state : SyncStateV3} {scope : HostScope} {entry : String × LocalRecord} :
    (readGroup state scope entry).isOk = true ↔ GroupRowReadable scope entry.1 entry.2.record := by
  obtain ⟨key, row⟩ := entry
  by_cases grouped : row.record.kind = .Group
  · simp only [readGroup, grouped, bne_self_eq_false, Bool.false_eq_true, if_false]
    rw [Result.isOk_check, validateCache_isOk, Result.isOk_bind]
    simp only [Validated.toRepo, Result.mapError_eq_ok]
    constructor
    · rintro ⟨cached, value, decoded, _⟩
      exact ⟨fun _ => cached, fun _ => Result.isOk_iff.mpr ⟨value, decoded⟩⟩
    · rintro ⟨cached, decodes⟩
      obtain ⟨value, decoded⟩ := Result.isOk_iff.mp (decodes grouped)
      refine ⟨cached grouped, value, decoded, ?_⟩
      cases value <;> rfl
  · have other : (row.record.kind != .Group) = true := by simpa using grouped
    simp only [readGroup, other, if_true, Result.isOk_ok, true_iff]
    exact ⟨fun h => absurd h grouped, fun h => absurd h grouped⟩

/-! ## Decoding in another space -/

theorem chainId_of_validateHostShape {host : HostRecord} {spaceId : String}
    (placed : host.scope = .Space spaceId) (valid : validateHostShape P host = .ok ()) :
    isChainId spaceId = true := by
  simp only [validateHostShape, Result.check_eq_ok, placed, validateScope, Result.refuse_eq_ok] at valid
  simpa using valid.2.2.2.2.1

theorem decodeHost_isOk_scope {record : Record} {a b : String} (chain : isChainId b = true)
    (valid : (decodeHost P record (.Space a)).isOk = true) :
    (decodeHost P record (.Space b)).isOk = true := by
  obtain ⟨decoded, valid⟩ := Result.isOk_iff.mp valid
  rw [decodeHost, Result.check_eq_ok, Result.check_eq_ok] at valid
  rw [decodeHost, Result.isOk_check, Result.isOk_check]
  refine ⟨valid.1, valid.2.1, ?_⟩
  have rest := valid.2.2
  by_cases gone : record.deleted
  · simp [gone]
  · simp only [gone, Bool.false_eq_true, if_false] at rest ⊢
    rw [Result.check_eq_ok, Result.bind_eq_ok] at rest
    rw [Result.isOk_check, Result.isOk_bind]
    obtain ⟨schema, payload, read, shape⟩ := rest
    refine ⟨schema, payload, read, ?_⟩
    rw [Result.check_eq_ok] at shape
    have chainA := chainId_of_validateHostShape rfl shape.1
    have same : validateHostShape P { id := record.id, scope := .Space b, payload } =
        validateHostShape P { id := record.id, scope := .Space a, payload } := by
      simp only [validateHostShape, validateScope, chain, chainA]
    rw [Result.isOk_check, same]
    exact ⟨shape.1, rfl⟩

theorem decodeGroup_isOk_scope {record : Record} {a b : String} (chain : isChainId b = true)
    (valid : (decodeGroup record (.Space a)).isOk = true) :
    (decodeGroup record (.Space b)).isOk = true := by
  obtain ⟨decoded, valid⟩ := Result.isOk_iff.mp valid
  rw [decodeGroup, Result.check_eq_ok, Result.check_eq_ok] at valid
  rw [decodeGroup, Result.isOk_check, Result.isOk_check]
  refine ⟨valid.1, valid.2.1, ?_⟩
  have rest := valid.2.2
  by_cases gone : record.deleted
  · simp [gone]
  · simp only [gone, Bool.false_eq_true, if_false] at rest ⊢
    rw [Result.bind_eq_ok] at rest
    rw [Result.isOk_bind]
    obtain ⟨payload, read, shape⟩ := rest
    refine ⟨payload, read, ?_⟩
    rw [Result.check_eq_ok] at shape
    have checked := shape.1
    simp only [validateGroup, Result.check_eq_ok, validateScope] at checked
    have chainA : isChainId a = true := by simpa using checked.2.2.1
    have same : validateGroup { id := record.id, scope := .Space b, payload } =
        validateGroup { id := record.id, scope := .Space a, payload } := by
      simp only [validateGroup, validateScope, chain, chainA]
    rw [Result.isOk_check, same]
    exact ⟨shape.1, rfl⟩

/-! ## The whole state -/

structure HeaderValid (state : SyncStateV3) : Prop where
  version : state.version = STATE_VERSION ∨ state.version = GROUP_STATE_VERSION ∨
    state.version = NAVIGATION_STATE_VERSION
  device : isSlotId state.deviceId = true
  joined : state.account = none → state.spaces.isEmpty = true
  account : ∀ account, state.account = some account → isChainId account.chainId = true
  spaces : ∀ id space, state.spaces[id]? = some space → isChainId id = true

theorem validateHeader_isOk {state : SyncStateV3} :
    validateHeader state = .ok () ↔ HeaderValid state := by
  have version : (!(state.version == STATE_VERSION || state.version == GROUP_STATE_VERSION ||
      state.version == NAVIGATION_STATE_VERSION)) = false ↔ (state.version = STATE_VERSION ∨
        state.version = GROUP_STATE_VERSION ∨ state.version = NAVIGATION_STATE_VERSION) := by
    simp [Decidable.or_iff_not_imp_left]
  have joined : (state.account.isNone && !state.spaces.isEmpty) = false ↔
      (state.account = none → state.spaces.isEmpty = true) := by
    cases state.account <;> simp
  rw [validateHeader, Result.check_eq_ok, Result.check_eq_ok, Result.check_eq_ok, Result.check_eq_ok,
    Result.forEach_eq_ok, Result.forSome_eq_ok]
  simp only [Result.refuse_eq_ok, version, joined, Bool.not_eq_false', Prod.forall,
    BTreeMap.mem_toList]
  constructor
  · rintro ⟨version, device, joined, account, spaces⟩
    exact ⟨version, device, joined, account, spaces⟩
  · rintro ⟨version, device, joined, account, spaces⟩
    exact ⟨version, device, joined, account, spaces⟩

/-- The rows `list_groups` walks in a readable scope. -/
def SyncStateV3.groupRows (state : SyncStateV3) : HostScope → BTreeMap LocalRecord
  | .Local => state.local.groups
  | .Space spaceId => state.spaceRecords spaceId

theorem mem_readableScopes_space {state : SyncStateV3} {spaceId : String} :
    .Space spaceId ∈ readableScopes state ↔
      ∃ space, state.spaces[spaceId]? = some space ∧ space.selected = true ∧ space.missing = false := by
  simp only [readableScopes, List.mem_cons, reduceCtorEq, false_or, List.mem_map, List.mem_filter,
    Prod.exists, HostScope.Space.injEq]
  constructor
  · rintro ⟨id, space, ⟨member, open_⟩, rfl⟩
    exact ⟨space, BTreeMap.mem_toList.mp member, by simpa using open_⟩
  · rintro ⟨space, found, selected, present⟩
    exact ⟨spaceId, space, ⟨BTreeMap.mem_toList.mpr found, by simp [selected, present]⟩, rfl⟩

theorem groupRecords_of_readable {state : SyncStateV3} {scope : HostScope}
    (readable : scope ∈ readableScopes state) : groupRecords state scope = .ok (state.groupRows scope) := by
  cases scope with
  | «Local» => rfl
  | Space spaceId =>
    obtain ⟨space, found, selected, present⟩ := mem_readableScopes_space.mp readable
    have kept : (some space).filter (fun space => space.selected && !space.missing) = some space := by
      simp [Option.filter, selected, present]
    simp [groupRecords, SyncStateV3.groupRows, SyncStateV3.spaceRecords, found, kept]

structure Readable (P : Primitives) (state : SyncStateV3) : Prop where
  header : HeaderValid state
  keys : ∀ id material, state.local.keys[id]? = some material → (localKey P id material).isOk = true
  account : ∀ account, state.account = some account → ∀ key row, account.records[key]? = some row →
    AccountRowReadable P key row.record
  hosts : ∀ scope ∈ readableScopes state, ∀ key row, (state.hostRecords scope)[key]? = some row →
    HostRowReadable P scope key row.record
  groups : ∀ scope ∈ readableScopes state, ∀ key row, (state.groupRows scope)[key]? = some row →
    GroupRowReadable scope key row.record

theorem deviceKeys_isOk {keys : BTreeMap LocalKeyMetadata} {views : BTreeMap KeyView} :
    (keys.toList.foldlM (fun (views : BTreeMap KeyView) (id, material) => do
        return views.insert id (← localKey P id material)) views).isOk = true ↔
      ∀ id material, keys[id]? = some material → (localKey P id material).isOk = true := by
  have steps : ∀ (views : BTreeMap KeyView) (entry : String × LocalKeyMetadata),
      (localKey P entry.1 entry.2 >>= fun view => pure (views.insert entry.1 view)).isOk = true ↔
        (localKey P entry.1 entry.2).isOk = true := by
    intro views entry
    rw [Result.isOk_map]
  refine (Result.foldlM_isOk steps).trans ?_
  simp only [Prod.forall, BTreeMap.mem_toList]

theorem accountKeys_isOk {keys : BTreeMap LocalKeyMetadata} {account : AccountState}
    {views : BTreeMap KeyView} :
    (account.records.toList.foldlM (addAccountKey P keys) views).isOk = true ↔
      ∀ key row, account.records[key]? = some row → AccountRowReadable P key row.record := by
  have steps : ∀ (views : BTreeMap KeyView) (entry : String × LocalRecord),
      (addAccountKey P keys views entry).isOk = true ↔ AccountRowReadable P entry.1 entry.2.record :=
    fun _ _ => addAccountKey_isOk
  refine (Result.foldlM_isOk steps).trans ?_
  simp only [Prod.forall, BTreeMap.mem_toList]

theorem listKeys_isOk {state : SyncStateV3} :
    (listKeys P state).isOk = true ↔ HeaderValid state ∧
      (∀ id material, state.local.keys[id]? = some material → (localKey P id material).isOk = true) ∧
      ∀ account, state.account = some account → ∀ key row, account.records[key]? = some row →
        AccountRowReadable P key row.record := by
  rw [listKeys, Result.isOk_check, validateHeader_isOk]
  apply and_congr_right
  intro _
  rw [Result.isOk_bind]
  cases state.account with
  | none =>
    simp only [reduceCtorEq, false_implies, implies_true, and_true]
    rw [← deviceKeys_isOk, Result.isOk_iff]
    exact exists_congr fun _ => and_iff_left rfl
  | some account =>
    simp only [Result.isOk_map, accountKeys_isOk, Option.some.injEq, forall_eq', exists_and_right]
    rw [← deviceKeys_isOk, Result.isOk_iff]

theorem readHosts_isOk {records : BTreeMap LocalRecord} {scope : HostScope}
    {sealed : Option (BTreeMap SealedRecord)} :
    (readHosts P records scope sealed).isOk = true ↔
      ∀ key row, records[key]? = some row → HostRowReadable P scope key row.record := by
  rw [readHosts, Result.isOk_map, Result.mapM_isOk]
  simp only [readHost_isOk, Prod.forall, BTreeMap.mem_toList]

theorem readScope_isOk {state : SyncStateV3} {scope : HostScope} :
    (readScope P state scope).isOk = true ↔
      ∀ key row, (state.hostRecords scope)[key]? = some row → HostRowReadable P scope key row.record := by
  cases scope with
  | «Local» => exact readHosts_isOk
  | Space spaceId => exact readHosts_isOk

theorem readGroups_isOk {state : SyncStateV3} {scope : HostScope}
    (readable : scope ∈ readableScopes state) :
    (readGroups state scope).isOk = true ↔
      ∀ key row, (state.groupRows scope)[key]? = some row → GroupRowReadable scope key row.record := by
  rw [readGroups, groupRecords_of_readable readable, Result.ok_bind, Result.isOk_map, Result.mapM_isOk]
  simp only [readGroup_isOk, Prod.forall, BTreeMap.mem_toList]

/-- Reading succeeds exactly when every part of the state passes its own check. -/
theorem snapshot_isOk_iff {state : SyncStateV3} :
    (snapshot P state).isOk = true ↔ Readable P state := by
  have parts : (snapshot P state).isOk = true ↔ HeaderValid state ∧
      (listKeys P state).isOk = true ∧ ((readableScopes state).mapM (readScope P state)).isOk = true ∧
        (listGroups state).isOk = true := by
    rw [snapshot, Result.isOk_check, validateHeader_isOk]
    simp only [Result.isOk_bind, Result.isOk_ok, and_true, exists_and_right, ← Result.isOk_iff]
  rw [parts, listKeys_isOk, Result.mapM_isOk, listGroups, Result.isOk_map, Result.mapM_isOk]
  constructor
  · rintro ⟨header, ⟨_, keys, account⟩, hosts, groups⟩
    exact
      { header, keys, account
        hosts := fun scope member => readScope_isOk.mp (hosts scope member)
        groups := fun scope member => (readGroups_isOk member).mp (groups scope member) }
  · intro readable
    exact ⟨readable.header, ⟨readable.header, readable.keys, readable.account⟩,
      fun scope member => readScope_isOk.mpr (readable.hosts scope member),
      fun scope member => (readGroups_isOk member).mpr (readable.groups scope member)⟩

end Sshelter.Sync
