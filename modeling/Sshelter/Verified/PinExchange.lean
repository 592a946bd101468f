import Sshelter.Verified.MergeReadable
import Sshelter.Verified.PinHistory

/-! # Pins that travel

Devices that share spaces edit hosts and groups, pin keys and pull from each other.  A
pull merges one space and then drops the pins whose hosts answer on another port than
before.  The port is compared with the one this device showed before the pull, not with
the one an arriving pin was confirmed for; a pin that arrives with a host that inherits
its port is therefore only as good as the groups of the device it comes from.
-/

namespace Sshelter.Sync

variable {P : Primitives} {keys : ChainKeys} {state next : SyncStateV3}

/-! ## Where the rows of a pull come from -/

/-- A cached row after a pull: the revision from before, or a pulled one that wins over it. -/
def RowFrom (P : Primitives) (keys : ChainKeys) (start : BTreeMap LocalRecord) (pulled : List Envelope)
    (key : String) (record : Record) : Prop :=
  (∃ old, start[key]? = some old ∧ record = old.record) ∨
    ∃ envelope ∈ pulled, openRecord P keys envelope = .ok record ∧ recordKey record.kind record.id = key ∧
      merge start[key]? record ≠ .KeepLocal

theorem mergeRows_from {account : Bool} {start rows : MergeRows} {pulled : List Envelope}
    (merged : mergeRows P keys account start pulled = .ok rows) :
    ∀ key row, rows.records[key]? = some row → RowFrom P keys start.records pulled key row.record := by
  -- the revision of a row never falls behind the one it started with
  have invariant := Result.foldlM_invariant (fun done current =>
      (∀ key row, current.records[key]? = some row → RowFrom P keys start.records done key row.record) ∧
      ∀ (key : String) old, start.records[key]? = some old →
        ∃ row, current.records[key]? = some row ∧ old.record.stamp ≤ row.record.stamp)
    ⟨fun key row held => .inl ⟨row, held, rfl⟩, fun key old held => ⟨old, held, le_refl _⟩⟩ ?_ merged
  · exact invariant.1
  rintro done current envelope rest after _ ⟨origin, grown⟩ step
  have later {key : String} {record : Record} (found : RowFrom P keys start.records done key record) :
      RowFrom P keys start.records (done ++ [envelope]) key record := by
    obtain old | ⟨row, member, facts⟩ := found
    · exact .inl old
    · exact .inr ⟨row, List.mem_append_left _ member, facts⟩
  cases arrives : arrival P keys account envelope with
  | Retained =>
    rw [(mergeRow_retained arrives step).1]
    exact ⟨fun key row held => later (origin key row held), grown⟩
  | Secret remote =>
    rw [(mergeRow_secret arrives step).1]
    exact ⟨fun key row held => later (origin key row held), grown⟩
  | Public remote =>
    obtain ⟨opened, _, _⟩ := arrival_public arrives
    rw [(mergeRow_public arrives step).2.1]
    set key := recordKey remote.kind remote.id with key_eq
    have merges := mergedRow_record current.records[key]? remote envelope.seq
    constructor
    · intro other row held
      rw [BTreeMap.get?_insert] at held
      split at held
      · rename_i here
        subst here
        cases held
        obtain ⟨same, wins⟩ | ⟨cached, found, same, _⟩ := merges
        · rw [same]
          refine .inr ⟨envelope, by simp, opened, key_eq.symm, ?_⟩
          cases before : start.records[key]? with
          | none => simp
          | some old =>
            obtain ⟨row, found, le⟩ := grown key old before
            rw [found, merge_ne_keepLocal_iff] at wins
            exact merge_ne_keepLocal_iff.mpr (lt_of_le_of_lt le wins)
        · rw [same]
          exact later (origin key cached found)
      · exact later (origin other row held)
    · intro other old before
      obtain ⟨row, found, le⟩ := grown other old before
      rw [BTreeMap.get?_insert]
      split
      · rename_i here
        subst here
        refine ⟨_, rfl, ?_⟩
        rw [found] at merges ⊢
        obtain ⟨same, wins⟩ | ⟨cached, cached_eq, same, _⟩ := merges
        · rw [same]
          exact le_of_lt (lt_of_le_of_lt le (merge_ne_keepLocal_iff.mp wins))
        · cases cached_eq
          rw [same]
          exact le
      · exact ⟨row, found, le⟩

theorem mergeSpace_from {space : SpaceStateV3} {pulled : PullResponse} {since : Nat} {gate : AccountGate}
    {key : String} {row : LocalRecord}
    (held : (mergeSpace P keys space pulled since gate).section_.records[key]? = some row) :
    RowFrom P keys space.records pulled.records key row.record := by
  by_cases admitted : (mergeSpace P keys space pulled since gate).gate = .Compatible
  · obtain ⟨rows, _, _, merged, section_, _⟩ := mergeSpace_compatible admitted
    rw [section_] at held
    exact mergeRows_from merged key row held
  · rw [mergeSpace_incompatible admitted] at held
    exact .inl ⟨row, held, rfl⟩

/-- A pull does not change which spaces are shown. -/
theorem mergeSpace_flags {space : SpaceStateV3} {pulled : PullResponse} {since : Nat} {gate : AccountGate} :
    (mergeSpace P keys space pulled since gate).section_.selected = space.selected ∧
      (mergeSpace P keys space pulled since gate).section_.missing = space.missing := by
  by_cases admitted : (mergeSpace P keys space pulled since gate).gate = .Compatible
  · obtain ⟨rows, _, _, _, section_, _⟩ := mergeSpace_compatible admitted
    rw [section_]
    exact ⟨rfl, rfl⟩
  · rw [mergeSpace_incompatible admitted]
    exact ⟨rfl, rfl⟩

/-! ## New groups in a pull -/

/-- The groups of the pull can be read and are new to the space, and no retained envelope of a
group is where the pull writes. -/
def NewGroups (P : Primitives) (keys : ChainKeys) (records : BTreeMap LocalRecord)
    (sealed : BTreeMap SealedRecord) (pulled : List Envelope) : Prop :=
  ∀ envelope ∈ pulled,
    (∀ row, sealed[envelope.wireKey]? = some row → row.envelope.kind ≠ "group") ∧
    (envelope.kind = "group" → ∃ record, arrival P keys false envelope = .Public record ∧
      records[recordKey .Group record.id]? = none)

/-- The rows with a pulled group among them. -/
def withGroup (P : Primitives) (keys : ChainKeys) (records : BTreeMap LocalRecord)
    (envelope : Envelope) : BTreeMap LocalRecord :=
  match openRecord P keys envelope with
  | .error _ => records
  | .ok record =>
    if record.kind = .Group then
      records.insert (recordKey .Group record.id) { record, seq := envelope.seq, dirty := false }
    else records

def withGroups (P : Primitives) (keys : ChainKeys) (records : BTreeMap LocalRecord)
    (pulled : List Envelope) : BTreeMap LocalRecord :=
  pulled.foldl (withGroup P keys) records

theorem withGroups_concat {records : BTreeMap LocalRecord} {done : List Envelope} {envelope : Envelope} :
    withGroups P keys records (done ++ [envelope]) = withGroup P keys (withGroups P keys records done) envelope := by
  simp [withGroups]

theorem ne_group_of_opened {envelope : Envelope} {record : Record} (other : envelope.kind ≠ "group")
    (opened : openRecord P keys envelope = .ok record) : record.kind ≠ .Group := by
  intro kind
  obtain ⟨named, _, _⟩ := openRecord_ok opened
  rw [kind] at named
  exact other named

theorem withGroup_otherKind {records : BTreeMap LocalRecord} {envelope : Envelope}
    (other : envelope.kind ≠ "group") : withGroup P keys records envelope = records := by
  unfold withGroup
  split
  · rfl
  · rename_i record opened
    rw [if_neg (ne_group_of_opened other opened)]

theorem withGroup_congr {records records' : BTreeMap LocalRecord} {envelope : Envelope}
    (same : ∀ id, records[recordKey .Group id]? = records'[recordKey .Group id]?) (id : String) :
    (withGroup P keys records envelope)[recordKey .Group id]? =
      (withGroup P keys records' envelope)[recordKey .Group id]? := by
  unfold withGroup
  split
  · exact same id
  · split
    · simp only [BTreeMap.get?_insert, same]
    · exact same id

/-- A row that is not there before is one of the pull. -/
theorem withGroups_from {records : BTreeMap LocalRecord} {pulled : List Envelope} {key : String}
    {row : LocalRecord} (held : (withGroups P keys records pulled)[key]? = some row) :
    records[key]? = some row ∨ ∃ envelope ∈ pulled, ∃ record, openRecord P keys envelope = .ok record ∧
      recordKey record.kind record.id = key := by
  induction pulled using List.reverseRecOn with
  | nil => exact .inl held
  | append_singleton done envelope ih =>
    have earlier (held : (withGroups P keys records done)[key]? = some row) :
        records[key]? = some row ∨ ∃ other ∈ done ++ [envelope], ∃ record,
          openRecord P keys other = .ok record ∧ recordKey record.kind record.id = key := by
      obtain old | ⟨other, member, facts⟩ := ih held
      · exact .inl old
      · exact .inr ⟨other, List.mem_append_left _ member, facts⟩
    rw [withGroups_concat, withGroup] at held
    split at held
    · exact earlier held
    · rename_i record opened
      split at held
      · rename_i kind
        rw [BTreeMap.get?_insert] at held
        split at held
        · rename_i same
          exact .inr ⟨envelope, by simp, record, opened, by rw [kind, same]⟩
        · exact earlier held
      · exact earlier held

/-- The retained envelopes of groups are the same. -/
def SameSealedGroups (before after : BTreeMap SealedRecord) : Prop :=
  ∀ (key : String) row, row.envelope.kind = "group" → (after[key]? = some row ↔ before[key]? = some row)

theorem SameSealedGroups.shadowed {before after : BTreeMap SealedRecord} (same : SameSealedGroups before after)
    (row : Option LocalRecord) (id : String) : shadowed after row .Group id = shadowed before row .Group id := by
  have kind (sealed : SealedRecord) (wins : opaqueShadows sealed row .Group id = true) :
      sealed.envelope.kind = "group" := by
    unfold opaqueShadows at wins
    split at wins
    · cases wins
    · simp only [Bool.and_eq_true, beq_iff_eq] at wins
      exact wins.1.2
  rw [Bool.eq_iff_iff, shadowed_iff, shadowed_iff]
  constructor
  · rintro ⟨key, sealed, held, wins⟩
    exact ⟨key, sealed, (same key sealed (kind sealed wins)).mp held, wins⟩
  · rintro ⟨key, sealed, held, wins⟩
    exact ⟨key, sealed, (same key sealed (kind sealed wins)).mpr held, wins⟩

/-- What a row writes into its sealed slot is about its own kind or that of the row before; a public
row writes nothing new. -/
theorem mergeRow_slot {account : Bool} {rows rows' : MergeRows} {envelope : Envelope}
    (merges : mergeRow P keys account rows envelope = .ok rows') :
    (∀ key, envelope.wireKey ≠ key → rows'.sealed[key]? = rows.sealed[key]?) ∧
      ∀ row, rows'.sealed[envelope.wireKey]? = some row →
        (∀ remote, arrival P keys account envelope ≠ .Public remote) ∧ row.envelope.kind = envelope.kind ∨
        ∃ old, rows.sealed[envelope.wireKey]? = some old ∧ row.envelope.kind = old.envelope.kind := by
  cases arrives : arrival P keys account envelope with
  | Retained =>
    obtain ⟨row, written, _, _, source, _⟩ := retainOpaque_spec (mergeRow_retained arrives merges).2.2
    rw [written]
    refine ⟨fun key other => BTreeMap.get?_insert_ne _ _ other, fun kept held => ?_⟩
    rw [BTreeMap.get?_insert_self] at held
    cases held
    obtain ⟨same, _⟩ | ⟨old, found, same, _⟩ := source
    · exact .inl ⟨by simp, by rw [same]⟩
    · refine .inr ⟨old, found, ?_⟩
      rw [sameCiphertext_iff.mp same]
  | Secret remote =>
    rw [(mergeRow_secret arrives merges).2.1]
    refine ⟨fun key other => BTreeMap.get?_insert_ne _ _ other, fun kept held => ?_⟩
    rw [BTreeMap.get?_insert_self] at held
    cases held
    unfold mergedSealed
    split
    · exact .inl ⟨by simp, rfl⟩
    · rename_i old found
      split
      · exact .inr ⟨old, found, rfl⟩
      · exact .inl ⟨by simp, rfl⟩
  | Public remote =>
    rw [(mergeRow_public arrives merges).2.2.1]
    split
    · exact ⟨fun key _ => rfl, fun row held => .inr ⟨row, held, rfl⟩⟩
    · refine ⟨fun key other => BTreeMap.get?_erase_ne _ other, fun row held => ?_⟩
      simp at held

/-- A pulled group that is new joins the rows as it came. -/
theorem mergeRow_newGroup {rows rows' : MergeRows} {envelope : Envelope} {remote : Record}
    (arrives : arrival P keys false envelope = .Public remote) (kind : remote.kind = .Group)
    (fresh : rows.records[recordKey .Group remote.id]? = none)
    (merges : mergeRow P keys false rows envelope = .ok rows') :
    rows'.records = withGroup P keys rows.records envelope := by
  rw [(mergeRow_public arrives merges).2.1, withGroup, (arrival_public arrives).1]
  simp only [kind, if_true, fresh, mergedRow]

theorem mergeRow_otherKind {rows rows' : MergeRows} {envelope : Envelope} (other : envelope.kind ≠ "group")
    (merges : mergeRow P keys false rows envelope = .ok rows') (id : String) :
    rows'.records[recordKey .Group id]? = rows.records[recordKey .Group id]? := by
  cases arrives : arrival P keys false envelope with
  | Retained => rw [(mergeRow_retained arrives merges).1]
  | Secret remote => rw [(mergeRow_secret arrives merges).1]
  | Public remote =>
    rw [(mergeRow_public arrives merges).2.1]
    apply BTreeMap.get?_insert_ne
    intro same
    exact ne_group_of_opened other (arrival_public arrives).1 (recordKey_injective same).1

/-- The groups after the merge are those from before and the new ones. -/
theorem mergeRows_newGroups {start rows : MergeRows} {pulled : List Envelope}
    (new : NewGroups P keys start.records start.sealed pulled) (distinct : (pulled.map Envelope.identity).Nodup)
    (merged : mergeRows P keys false start pulled = .ok rows) (id : String) :
    rows.records[recordKey .Group id]? = (withGroups P keys start.records pulled)[recordKey .Group id]? := by
  revert id
  refine Result.foldlM_invariant (fun done current => ∀ id,
      current.records[recordKey .Group id]? = (withGroups P keys start.records done)[recordKey .Group id]?)
    (fun _ => rfl) ?_ merged
  rintro done current envelope rest after items same step id
  obtain ⟨_, readable⟩ := new envelope (by rw [items]; simp)
  rw [withGroups_concat]
  by_cases grouped : envelope.kind = "group"
  · obtain ⟨remote, arrives, absent⟩ := readable grouped
    obtain ⟨opened, _, _⟩ := arrival_public arrives
    have kind : remote.kind = .Group := by
      obtain ⟨kind, _, _⟩ := openRecord_ok opened
      exact RecordKind.asStr_injective (kind.symm.trans grouped)
    -- no earlier row of the pull is about this group
    have fresh : current.records[recordKey .Group remote.id]? = none := by
      rw [same]
      by_contra held
      obtain ⟨row, held⟩ := Option.ne_none_iff_exists'.mp held
      obtain old | ⟨other, member, record, opened', key_eq⟩ := withGroups_from held
      · rw [absent] at old
        cases old
      · have twice := identity_of_recordKey opened' opened (by rw [key_eq, kind])
        rw [items, List.map_append, List.nodup_append] at distinct
        exact distinct.2.2 _ (List.mem_map_of_mem member) _ (by simp) twice
    rw [mergeRow_newGroup arrives kind fresh step]
    exact withGroup_congr same id
  · rw [mergeRow_otherKind grouped step, withGroup_otherKind grouped]
    exact same id

/-- No retained envelope of a group comes or goes. -/
theorem mergeRows_sameSealedGroups {start rows : MergeRows} {pulled : List Envelope}
    (new : NewGroups P keys start.records start.sealed pulled)
    (merged : mergeRows P keys false start pulled = .ok rows) : SameSealedGroups start.sealed rows.sealed := by
  refine Result.foldlM_invariant (fun _ current => SameSealedGroups start.sealed current.sealed)
    (fun _ _ _ => Iff.rfl) ?_ merged
  rintro done current envelope rest after items sealed step
  obtain ⟨free, readable⟩ := new envelope (by rw [items]; simp)
  obtain ⟨elsewhere, slot⟩ := mergeRow_slot step
  intro key row grouped
  by_cases here : envelope.wireKey = key
  · subst here
    -- neither the new row of the slot nor the old one is a group's
    refine iff_of_false (fun held => ?_) (fun held => free row held grouped)
    obtain ⟨hidden, same⟩ | ⟨old, found, same⟩ := slot row held
    · obtain ⟨remote, arrives, _⟩ := readable (same ▸ grouped)
      exact hidden remote arrives
    · have before := (sealed envelope.wireKey old (same ▸ grouped)).mp found
      exact free old before (same ▸ grouped)
  · rw [elsewhere key here]
    exact sealed key row grouped

/-! ## One pull -/

/-- What a pull writes before the pins are looked at. -/
def pulledState (P : Primitives) (keys : ChainKeys) (state : SyncStateV3) (spaceId : String)
    (space : SpaceStateV3) (pulled : PullResponse) (since : Nat) (gate : AccountGate) : SyncStateV3 :=
  state.withSpace spaceId (mergeSpace P keys space pulled since gate).section_

/-- The state with the groups of a pull among the rows of their space. -/
def SyncStateV3.withSpaceGroups (P : Primitives) (keys : ChainKeys) (state : SyncStateV3) (spaceId : String)
    (pulled : List Envelope) : SyncStateV3 :=
  match state.spaces[spaceId]? with
  | none => state
  | some space => state.withSpace spaceId { space with records := withGroups P keys space.records pulled }

/-- `merge_space`, then `invalidate_changed_pins` against the previous state. -/
def pullSpace (P : Primitives) (keys : ChainKeys) (state : SyncStateV3) (spaceId : String)
    (pulled : PullResponse) (since : Nat) (gate : AccountGate) : Repo SyncStateV3 :=
  match state.spaces[spaceId]? with
  | none => .error (.SpaceUnavailable spaceId)
  | some space =>
    invalidateChangedPins P state (pulledState P keys state spaceId space pulled since gate)

section Pull
variable {spaceId : String} {space : SpaceStateV3} {pulled : PullResponse} {since : Nat}
  {gate : AccountGate}

theorem pulledState_readable (found : state.spaces[spaceId]? = some space) :
    readableScopes (pulledState P keys state spaceId space pulled since gate) = readableScopes state :=
  insert_spaces_readable found mergeSpace_flags.1 mergeSpace_flags.2

theorem pulledState_here :
    (pulledState P keys state spaceId space pulled since gate).spaces[spaceId]? =
      some (mergeSpace P keys space pulled since gate).section_ := by
  simp [pulledState, SyncStateV3.withSpace]

/-- A host after the merge: the revision from before, or a pulled one that wins over it. -/
theorem host_of_pulled (found : state.spaces[spaceId]? = some space) {host : HostRecord} {row : LocalRecord}
    (holds : Holds P (pulledState P keys state spaceId space pulled since gate) host row) :
    (∃ old, Holds P state host old) ∨
      host.scope = .Space spaceId ∧ (mergeSpace P keys space pulled since gate).gate = .Compatible ∧
      ∃ envelope ∈ pulled.records, openRecord P keys envelope = .ok row.record ∧
        merge (state.spaceRecords spaceId)[recordKey .Host host.id]? row.record ≠ .KeepLocal := by
  have readable : host.scope ∈ readableScopes state := pulledState_readable found ▸ holds.scope
  have held := holds.held
  cases placed : host.scope with
  | «Local» =>
    rw [placed] at held
    refine .inl ⟨row, readable, ?_, holds.decodes⟩
    rw [placed]
    exact held
  | Space id =>
    by_cases here : spaceId = id
    · subst here
      rw [placed] at held
      simp only [SyncStateV3.hostRecords, SyncStateV3.spaceRecords, pulledState_here, Option.map_some,
        Option.getD_some] at held
      have rows : state.spaceRecords spaceId = space.records := by simp [SyncStateV3.spaceRecords, found]
      obtain ⟨old, before, same⟩ | ⟨envelope, member, opened, _, wins⟩ := mergeSpace_from held
      · refine .inl ⟨old, readable, ?_, ?_⟩
        · rw [placed]
          simpa [SyncStateV3.hostRecords, rows] using before
        · rw [← same]
          exact holds.decodes
      · refine .inr ⟨rfl, ?_, envelope, member, opened, by rw [rows]; exact wins⟩
        by_contra refused
        rw [mergeSpace_incompatible refused] at held
        rw [held] at wins
        exact lt_irrefl _ (merge_ne_keepLocal_iff.mp wins)
    · refine .inl ⟨row, readable, ?_, holds.decodes⟩
      rw [placed] at held ⊢
      simpa [SyncStateV3.hostRecords, SyncStateV3.spaceRecords, pulledState, SyncStateV3.withSpace,
        BTreeMap.get?_insert_ne _ _ here] using held

theorem withSpaceGroups_here {pulled : List Envelope} (found : state.spaces[spaceId]? = some space) :
    (state.withSpaceGroups P keys spaceId pulled).spaces[spaceId]? =
      some { space with records := withGroups P keys space.records pulled } := by
  simp [SyncStateV3.withSpaceGroups, found, SyncStateV3.withSpace]

theorem withSpaceGroups_readable {pulled : List Envelope} :
    readableScopes (state.withSpaceGroups P keys spaceId pulled) = readableScopes state := by
  unfold SyncStateV3.withSpaceGroups
  split
  · rfl
  · rename_i space found
    exact insert_spaces_readable found rfl rfl

/-- The groups after an admitted merge are those of the rows that the new groups were added to. -/
theorem pulledState_newGroups (found : state.spaces[spaceId]? = some space)
    (readable : .Space spaceId ∈ readableScopes state)
    (new : NewGroups P keys space.records space.sealed pulled.records)
    (admitted : (mergeSpace P keys space pulled since gate).gate = .Compatible) (id : String) :
    group (pulledState P keys state spaceId space pulled since gate) (.Space spaceId) id =
      group (state.withSpaceGroups P keys spaceId pulled.records) (.Space spaceId) id := by
  obtain ⟨rows, _, valid, merged, section_, _⟩ := mergeSpace_compatible admitted
  have records := mergeRows_newGroups new (validPull_nodup valid).1 merged
  have sealed := mergeRows_sameSealedGroups new merged
  simp only [MergeRows.begin] at records sealed
  have after : .Space spaceId ∈ readableScopes (pulledState P keys state spaceId space pulled since gate) := by
    rw [pulledState_readable found]
    exact readable
  have before : .Space spaceId ∈ readableScopes (state.withSpaceGroups P keys spaceId pulled.records) := by
    rw [withSpaceGroups_readable]
    exact readable
  simp only [Sync.group, groupRecords_of_readable before, groupRecords_of_readable after, Result.ok_bind,
    SyncStateV3.groupRows, scopeSealed, SyncStateV3.spaceRecords, SyncStateV3.spaceSealed, pulledState_here,
    withSpaceGroups_here found, section_, Option.map_some, Option.getD_some, records, sealed.shadowed]

theorem invalidatePin_drops {old : List HostView} : DropsStale P (pinStale old) (invalidatePin old) := by
  intro state view next ran
  obtain unchanged | ⟨previous, record, _, unpins, rfl⟩ := invalidatePin_cases ran
  · exact .inl unchanged
  · exact .inr ⟨_, rfl, fun host decodes => unpinned_of_dropped unpins.payload decodes⟩

/-- A pinned host that was shown before and is not found stale answers on the same port. -/
theorem port_of_fresh {old : List HostView} {before : SyncStateV3} {view : HostView} {viewRow : LocalRecord}
    {host : HostRecord} {row : LocalRecord} (listed : listHosts P before = .ok old)
    (shown : Shown P state view viewRow) (holds : Holds P before host row)
    (scope : host.scope = view.host.scope) (id : host.id = view.host.id)
    (pinned : view.host.payload.hostKey.isSome = true) (fresh : pinStale old view = false) :
    (effectiveOf P state view.host).port = (effectiveOf P before host).port := by
  obtain ⟨other, _, found, rfl, otherShown⟩ := find_shown listed holds scope id
  simp only [pinStale, pinned, found, Bool.true_and, Option.any_some, Bool.or_eq_false_iff,
    bne_eq_false_iff_eq] at fresh
  rw [← shown.effective, ← fresh.1, otherShown.effective]

/-- The pin of an arriving host that inherits its port was confirmed for the port the host has on
this device already.  A host that is new here may also have the port its groups give it: those
that are here already and those the pull brings, if it changes none of the former. -/
def PinsArriveConfirmed (P : Primitives) (keys : ChainKeys) (log : List Confirmation) (state : SyncStateV3)
    (spaceId : String) (pulled : List Envelope) : Prop :=
  ∀ envelope ∈ pulled, ∀ remote host pin, openRecord P keys envelope = .ok remote →
    decodeHost P remote (.Space spaceId) = .ok (.Live host) → host.payload.hostKey = some pin →
    .Port ∈ host.payload.inherit →
    merge (state.spaceRecords spaceId)[recordKey .Host host.id]? remote ≠ .KeepLocal →
    ∃ port, { id := host.id, endpoint := { hostname := host.payload.hostname, port }, key := pin } ∈ log ∧
      ((∃ old row, Holds P state old row ∧ old.scope = .Space spaceId ∧ old.id = host.id ∧
          (effectiveOf P state old).port = port) ∨
        (NewGroups P keys (state.spaceRecords spaceId) (state.spaceSealed spaceId) pulled ∧ ∃ effective,
          resolveEffective P (state.withSpaceGroups P keys spaceId pulled) host = .ok effective ∧
            effective.payload.port = port))

/-- A record that carries its own port carries the endpoint its pin was confirmed for. -/
def OwnPortConfirmed (P : Primitives) (log : List Confirmation) (spaceId : String) (record : Record) : Prop :=
  ∀ host pin, decodeHost P record (.Space spaceId) = .ok (.Live host) → host.payload.hostKey = some pin →
    .Port ∉ host.payload.inherit →
    { id := host.id, key := pin
      endpoint := { hostname := host.payload.hostname, port := host.payload.port } } ∈ log

theorem pullSpace_pins {log : List Confirmation}
    (ran : pullSpace P keys state spaceId pulled since gate = .ok next)
    (sent : ∀ envelope ∈ pulled.records, ∀ record, openRecord P keys envelope = .ok record →
      OwnPortConfirmed P log spaceId record)
    (arrive : PinsArriveConfirmed P keys log state spaceId pulled.records)
    (confirmed : PinsConfirmed P log state) : PinsConfirmed P log next := by
  unfold pullSpace at ran
  split at ran
  · cases ran
  rename_i space found
  obtain ⟨old, listed, ran⟩ := Result.bind_eq_ok.mp ran
  obtain ⟨new, listed', ran⟩ := Result.bind_eq_ok.mp ran
  obtain ⟨groups, survivors⟩ := (invalidatePin_drops (P := P)).pins ran
  intro host row pin holds pinned
  obtain ⟨candidate, fresh⟩ := survivors host row pin holds pinned
  rw [groups.endpointOf candidate.scope]
  obtain ⟨view, member, rfl, shown⟩ := exists_view listed' candidate
  have unchanged := fresh view member rfl rfl
  have some_pin : view.host.payload.hostKey.isSome = true := by simp [pinned]
  obtain ⟨before, heldBefore⟩ | ⟨placed, admitted, envelope, inPull, opened, wins⟩ :=
    host_of_pulled found candidate
  · -- the host was here before and answers as it did
    have port := port_of_fresh listed shown heldBefore rfl rfl some_pin unchanged
    have endpoint_eq : endpointOf P (pulledState P keys state spaceId space pulled since gate) view.host =
        endpointOf P state view.host := by
      rw [endpointOf, endpointOf, port, effectiveOf_hostname, effectiveOf_hostname]
    rw [endpoint_eq]
    exact confirmed view.host before pin heldBefore pinned
  · have decodes : decodeHost P row.record (.Space spaceId) = .ok (.Live view.host) :=
      placed ▸ candidate.decodes
    by_cases inherits : .Port ∈ view.host.payload.inherit
    · obtain ⟨port, noted, ⟨known, knownRow, knownHolds, scope, id, port_eq⟩ | ⟨new, effective, resolved, port_eq⟩⟩ :=
        arrive envelope inPull row.record view.host pin opened decodes pinned inherits wins
      · have same := port_of_fresh listed shown knownHolds (scope.trans placed.symm) id some_pin unchanged
        rw [endpointOf, effectiveOf_hostname, same, port_eq]
        exact noted
      · have readable := candidate.scope
        rw [pulledState_readable found, placed] at readable
        have rows : state.spaceRecords spaceId = space.records := by simp [SyncStateV3.spaceRecords, found]
        have sealed : state.spaceSealed spaceId = space.sealed := by simp [SyncStateV3.spaceSealed, found]
        rw [rows, sealed] at new
        have same : effectiveOf P (pulledState P keys state spaceId space pulled since gate) view.host =
            effectiveOf P (state.withSpaceGroups P keys spaceId pulled.records) view.host := by
          apply effectiveOf_congr
          rw [placed]
          exact pulledState_newGroups found readable new admitted
        rw [endpointOf, same, effectiveOf_hostname, effectiveOf_eq resolved, port_eq]
        exact noted
    · -- a host with its own port carries the endpoint with it
      rw [endpointOf, effectiveOf_hostname, effectiveOf_port inherits]
      exact sent envelope inPull row.record opened view.host pin decodes pinned inherits

end Pull

/-! ## Devices that share spaces -/

/-- The devices, the records they have shown so far, and the confirmations given so far. -/
structure PinWorld (ι : Type) where
  device : ι → SyncStateV3
  published : Set (String × Record)
  log : List Confirmation

/-- The records in the spaces a device shows.  Only these are ever pushed. -/
def SyncStateV3.shownRecords (state : SyncStateV3) : Set (String × Record) :=
  {entry | .Space entry.1 ∈ readableScopes state ∧ ∃ row, row.record = entry.2 ∧
    (state.spaceRecords entry.1)[recordKey entry.2.kind entry.2.id]? = some row}

inductive PinEvent where
  | edit (change : LocalEdit) (now : Nat)
  | pull (spaceId : String) (pulled : PullResponse) (since : Nat) (gate : AccountGate)

namespace PinWorld
variable {ι : Type} {token : RepositorySnapshot → String} {chainKeys : String → ChainKeys}
  {start world world' : PinWorld ι}

/-- The world after one device saved its new state. -/
def after [DecidableEq ι] (world : PinWorld ι) (i : ι) (next : SyncStateV3) (confirmed : List Confirmation) : PinWorld ι where
  device := Function.update world.device i next
  published := world.published ∪ next.shownRecords
  log := world.log ++ confirmed

/-- One device edits, or pulls a space.  What a pull can read was shown by some device. -/
inductive Step [DecidableEq ι] (P : Primitives) (token : RepositorySnapshot → String)
    (chainKeys : String → ChainKeys) (world : PinWorld ι) (i : ι) : PinEvent → PinWorld ι → Prop where
  | edit {change : LocalEdit} {now : Nat} {next : SyncStateV3}
      (ran : change.run P token (world.device i) now = .ok next) :
      Step P token chainKeys world i (.edit change now)
        (world.after i next (LibraryEdit.confirms P (world.device i) now (.edit change)))
  | pull {spaceId : String} {pulled : PullResponse} {since : Nat} {gate : AccountGate} {next : SyncStateV3}
      (sent : ∀ envelope ∈ pulled.records, ∀ record,
        openRecord P (chainKeys spaceId) envelope = .ok record → (spaceId, record) ∈ world.published)
      (ran : pullSpace P (chainKeys spaceId) (world.device i) spaceId pulled since gate = .ok next) :
      Step P token chainKeys world i (.pull spaceId pulled since gate) (world.after i next [])

/-- Steps in any order, as far as they are allowed. -/
inductive Run [DecidableEq ι] (P : Primitives) (token : RepositorySnapshot → String)
    (chainKeys : String → ChainKeys) (allowed : PinWorld ι → ι → PinEvent → Prop) (start : PinWorld ι) : PinWorld ι → Prop where
  | start : Run P token chainKeys allowed start start
  | step {world world' : PinWorld ι} {i : ι} {event : PinEvent}
      (earlier : Run P token chainKeys allowed start world) (may : allowed world i event)
      (taken : Step P token chainKeys world i event world') : Run P token chainKeys allowed start world'

/-- Every pin of a host whose groups resolve was confirmed for the endpoint the host has now. -/
def PinsCorrect (P : Primitives) (world : PinWorld ι) : Prop :=
  ∀ i host row pin effective, Holds P (world.device i) host row → host.payload.hostKey = some pin →
    resolveEffective P (world.device i) host = .ok effective →
    { id := host.id, key := pin
      endpoint := { hostname := effective.payload.hostname, port := effective.payload.port } } ∈ world.log

/-- Pins are correct, and nothing but what the devices show has been published. -/
structure StartsCorrect (P : Primitives) (world : PinWorld ι) : Prop where
  pins : ∀ i, PinsConfirmed P world.log (world.device i)
  published : ∀ entry ∈ world.published, ∃ i, entry ∈ (world.device i).shownRecords

/-- The condition on a pull; edits need none. -/
def PullsConfirmed (P : Primitives) (chainKeys : String → ChainKeys) (world : PinWorld ι) (i : ι) :
    PinEvent → Prop
  | .edit _ _ => True
  | .pull spaceId pulled _ _ =>
    PinsArriveConfirmed P (chainKeys spaceId) world.log (world.device i) spaceId pulled.records

/-- The invariant of the runs. -/
structure Confirmed (P : Primitives) (world : PinWorld ι) : Prop where
  pins : ∀ i, PinsConfirmed P world.log (world.device i)
  published : ∀ entry ∈ world.published, OwnPortConfirmed P world.log entry.1 entry.2

theorem ownPort_of_shown {log : List Confirmation} {entry : String × Record}
    (confirmed : PinsConfirmed P log state) (shown : entry ∈ state.shownRecords) :
    OwnPortConfirmed P log entry.1 entry.2 := by
  obtain ⟨spaceId, record⟩ := entry
  obtain ⟨readable, row, rfl, held⟩ := shown
  intro host pin decodes pinned own
  obtain ⟨kind, _, sameId, scope, _⟩ := decodeHost_live decodes
  have holds : Holds P state host row := by
    refine ⟨scope ▸ readable, ?_, scope ▸ decodes⟩
    rw [scope, sameId, ← kind]
    exact held
  have noted := confirmed host row pin holds pinned
  rw [endpointOf, effectiveOf_hostname, effectiveOf_port own] at noted
  exact noted

theorem Confirmed.pinsCorrect (good : Confirmed P world) : PinsCorrect P world := by
  intro i host row pin effective holds pinned resolved
  have noted := good.pins i host row pin holds pinned
  rw [endpointOf, effectiveOf_eq resolved] at noted
  exact noted

theorem StartsCorrect.confirmed (correct : StartsCorrect P start) : Confirmed P start := by
  refine ⟨correct.pins, fun entry published => ?_⟩
  obtain ⟨i, shown⟩ := correct.published entry published
  exact ownPort_of_shown (correct.pins i) shown

section Runs
variable [DecidableEq ι]

theorem Confirmed.after {i : ι} {confirmed : List Confirmation} (good : Confirmed P world)
    (pins : PinsConfirmed P (world.log ++ confirmed) next) : Confirmed P (world.after i next confirmed) := by
  have longer := List.subset_append_left world.log confirmed
  constructor
  · intro j
    by_cases here : j = i
    · subst here
      simpa [PinWorld.after] using pins
    · simpa [PinWorld.after, here] using (good.pins j).mono longer
  · intro entry published
    obtain earlier | shown := published
    · intro host pin decodes pinned own
      exact longer (good.published entry earlier host pin decodes pinned own)
    · exact ownPort_of_shown pins shown

theorem Confirmed.step {i : ι} {event : PinEvent} (good : Confirmed P world)
    (may : PullsConfirmed P chainKeys world i event)
    (taken : Step P token chainKeys world i event world') : Confirmed P world' := by
  cases taken with
  | edit ran => exact good.after (localEdit_pins ran (good.pins i))
  | pull sent ran =>
    apply good.after
    rw [List.append_nil]
    refine pullSpace_pins ran (fun envelope member record opened => ?_) may (good.pins i)
    exact good.published _ (sent envelope member record opened)

end Runs

end PinWorld

/-- While every pin that arrives was confirmed for the port its host has on the receiving device,
the pins of all devices stay correct. -/
theorem pins_correct_of_confirmed_pulls {ι : Type} [DecidableEq ι] (P : Primitives)
    (token : RepositorySnapshot → String) (chainKeys : String → ChainKeys) (start world : PinWorld ι)
    (correct : PinWorld.StartsCorrect P start)
    (run : PinWorld.Run P token chainKeys (PinWorld.PullsConfirmed P chainKeys) start world) :
    PinWorld.PinsCorrect P world := by
  suffices good : PinWorld.Confirmed P world from good.pinsCorrect
  induction run with
  | start => exact correct.confirmed
  | step _ may taken ih => exact ih.step may taken

/-! ## A pin and a port change that meet in a pull

Two devices share a host that takes port 22 from its group.  One pins the host's key, the
other gives the group another port; the second device then pulls the pinned host. -/

namespace Sample

def inheritingHost : LocalRecord :=
  { record :=
      { host 1 10 device with
        payload := HostPayload.toJson
          { hostPayload with schema := GROUPED_HOST_SCHEMA, groupId := some groupId, inherit := [.Port] } }
    seq := 2, dirty := false }

def inheritingMember : HostRecord :=
  { id := hostId, scope := .Space chainId
    payload :=
      { hostPayload with schema := GROUPED_HOST_SCHEMA, groupId := some groupId, inherit := [.Port] } }

def sharedSpace : SpaceStateV3 :=
  { space with
    cursorSeq := 2
    records := ((∅ : BTreeMap LocalRecord).insert (recordKey .Group groupId) groupRow).insert
      (recordKey .Host hostId) inheritingHost }

def sharedLibrary (deviceId : String) : SyncStateV3 :=
  { library sharedSpace with version := GROUP_STATE_VERSION, deviceId }

def pinEdit : LocalEdit :=
  .pinHostKey hostId { hostname := "web.test", port := 22 } none
    { algorithm := "a", publicKey := "b", fingerprint := "SHA256:b", pinnedAtMs := 0, pinnedByDeviceId := "" }

/-- The host as the first device publishes it. -/
def pinnedRecord : Record :=
  { inheritingHost.record with version := 2, updatedAtMs := 30, payload := pinnedMember.payload.toJson }

def pinTable : Primitives := tablePrimitives [("host\n" ++ hostId, "0a")] [("p", pinnedRecord.toJson)]

def pinPull : PullResponse :=
  { latestSeq := 3
    records :=
      [{ idHash := "0a", kind := "host", seq := 3, nonce := "n", ciphertext := "np", deleted := false }] }

/-- The first pull of a device that has nothing of the space: the group and its pinned member. -/
def firstPull : PullResponse :=
  { latestSeq := 3
    records :=
      [{ idHash := "0b", kind := "group", seq := 2, nonce := "n", ciphertext := "ng", deleted := false },
        { idHash := "0a", kind := "host", seq := 3, nonce := "n", ciphertext := "np", deleted := false }] }

def firstTable : Primitives :=
  tablePrimitives [("group\n" ++ groupId, "0b"), ("host\n" ++ hostId, "0a")]
    [("g", groupRow.record.toJson), ("p", pinnedRecord.toJson)]

def sharing : PinWorld Bool where
  device second := sharedLibrary (if second then otherDevice else device)
  published := ∅
  log := []

/-- What the first device confirms. -/
def confirmation : Confirmation :=
  { id := hostId, endpoint := { hostname := "web.test", port := 22 }, key := storedPin }

theorem sharedLibrary_unpinned {deviceId : String} {host : HostRecord} {row : LocalRecord}
    (holds : Holds pinTable (sharedLibrary deviceId) host row) : host.payload.hostKey = none := by
  have held := holds.held
  cases placed : host.scope with
  | «Local» => simp [placed, sharedLibrary, library, LocalState.default, SyncStateV3.hostRecords] at held
  | Space spaceId =>
    by_cases here : chainId = spaceId
    · subst here
      simp only [placed, sharedLibrary, library, sharedSpace, SyncStateV3.hostRecords,
        SyncStateV3.spaceRecords, BTreeMap.get?_insert_self, Option.map_some, Option.getD_some,
        BTreeMap.get?_insert] at held
      split at held
      · cases held
        rw [payload_of_written rfl holds.decodes]
        rfl
      · split at held
        · rename_i same
          cases (recordKey_injective same).1
        · simp at held
    · simp [placed, sharedLibrary, library, SyncStateV3.hostRecords, SyncStateV3.spaceRecords,
        BTreeMap.get?_insert_ne _ _ here] at held

theorem sharing_startsCorrect : PinWorld.StartsCorrect pinTable sharing where
  pins second host row pin holds pinned := by
    rw [sharedLibrary_unpinned holds] at pinned
    cases pinned
  published entry published := by cases published

/-- What the sample devices hold and send, evaluated. -/
theorem sharing_evaluated :
    (∀ envelope ∈ pinPull.records, openRecord pinTable Sample.keys envelope = .ok pinnedRecord) ∧
      LibraryEdit.confirms pinTable (sharedLibrary device) 30 (.edit pinEdit) = [confirmation] ∧
      (∃ pinned ∈ (pinEdit.run pinTable (fun _ => "") (sharedLibrary device) 30).toOption,
        .Space chainId ∈ readableScopes pinned ∧
        ∃ row ∈ (pinned.spaceRecords chainId)[recordKey .Host hostId]?, row.record = pinnedRecord) ∧
      .Space chainId ∈ readableScopes (sharedLibrary otherDevice) ∧
      decodeHost pinTable inheritingHost.record (.Space chainId) = .ok (.Live inheritingMember) ∧
      ((sharedLibrary otherDevice).hostRecords (.Space chainId))[recordKey .Host hostId]? = some inheritingHost ∧
      (effectiveOf pinTable (sharedLibrary otherDevice) inheritingMember).port = 22 := by
  decide +kernel

theorem pinPull_opens {envelope : Envelope} (member : envelope ∈ pinPull.records) {record : Record}
    (opened : openRecord pinTable Sample.keys envelope = .ok record) : record = pinnedRecord := by
  rw [sharing_evaluated.1 envelope member] at opened
  exact (Except.ok.inj opened).symm

theorem pinEdit_confirms :
    LibraryEdit.confirms pinTable (sharedLibrary device) 30 (.edit pinEdit) = [confirmation] :=
  sharing_evaluated.2.1

/-- The first device pins the key and shows the pinned host. -/
theorem pinEdit_shown : ∃ pinned, pinEdit.run pinTable (fun _ => "") (sharedLibrary device) 30 = .ok pinned ∧
    (chainId, pinnedRecord) ∈ pinned.shownRecords := by
  obtain ⟨pinned, ran, readable, row, held, same⟩ := sharing_evaluated.2.2.1
  exact ⟨pinned, Result.mem_toOption.mp ran, readable, row, same, held⟩

/-- The second device has the host on the port the pin was confirmed for. -/
theorem pinPull_confirmed {log : List Confirmation} (noted : confirmation ∈ log) :
    PinsArriveConfirmed pinTable Sample.keys log (sharedLibrary otherDevice) chainId pinPull.records := by
  intro envelope member remote host pin opened decodes pinned _ _
  obtain rfl := pinPull_opens member opened
  obtain ⟨readable, decodes', held, port⟩ := sharing_evaluated.2.2.2
  obtain ⟨_, _, named, _, _, _⟩ := decodeHost_live decodes
  have payload := payload_of_written rfl decodes
  refine ⟨22, ?_, .inl ⟨inheritingMember, inheritingHost, ⟨readable, held, decodes'⟩, rfl, named.symm, port⟩⟩
  rw [payload] at pinned ⊢
  cases pinned
  rw [named]
  exact noted

end Sample

/-- The pull keeps the pin, which was confirmed for port 22, on a host that answers on port 2222. -/
theorem pulled_pin_misses_port_change :
    ¬ ∀ (P : Primitives) (token : RepositorySnapshot → String) (chainKeys : String → ChainKeys)
      (start world : PinWorld Bool), PinWorld.StartsCorrect P start →
      PinWorld.Run P token chainKeys (fun _ _ _ => True) start world → PinWorld.PinsCorrect P world := by
  intro always
  obtain ⟨pinned, pinRan, shown⟩ := Sample.pinEdit_shown
  have facts : ∃ moved ∈ (Sample.portEdit.run Sample.pinTable (fun _ => "")
        (Sample.sharedLibrary Sample.otherDevice) 40).toOption,
      ∃ merged ∈ (pullSpace Sample.pinTable Sample.keys moved Sample.chainId Sample.pinPull 2
        .Compatible).toOption, .Space Sample.chainId ∈ readableScopes merged ∧
      (∃ row ∈ (merged.hostRecords (.Space Sample.chainId))[recordKey .Host Sample.hostId]?,
        decodeHost Sample.pinTable row.record (.Space Sample.chainId) = .ok (.Live Sample.pinnedMember)) ∧
      ∃ effective ∈ (resolveEffective Sample.pinTable merged Sample.pinnedMember).toOption,
        effective.payload.port = 2222 := by
    decide +kernel
  obtain ⟨moved, moveRan, merged, pullRan, readable, ⟨row, held, decodes⟩, effective, resolved, port⟩ := facts
  rw [Result.mem_toOption] at moveRan pullRan resolved
  have first : PinWorld.Run Sample.pinTable (fun _ => "") (fun _ => Sample.keys) (fun _ _ _ => True)
      Sample.sharing _ := .step .start trivial (.edit (i := false) pinRan)
  have second := first.step trivial (.edit (i := true) moveRan)
  have third := second.step trivial (.pull (i := true) (fun envelope member record opened => by
    rw [Sample.pinPull_opens member opened]
    exact .inl (.inr shown)) pullRan)
  have noted := always _ _ _ _ _ Sample.sharing_startsCorrect third true Sample.pinnedMember row
    Sample.storedPin effective ⟨readable, held, decodes⟩ rfl resolved
  -- the only confirmation is the one for port 22
  change _ ∈ (([] ++ LibraryEdit.confirms Sample.pinTable (Sample.sharedLibrary Sample.device) 30
    (.edit Sample.pinEdit)) ++ []) ++ [] at noted
  rw [Sample.pinEdit_confirms, port] at noted
  simp [Sample.confirmation] at noted

/-- The member that a first pull brings has the port of the group beside it. -/
example :
    ∃ effective ∈ (resolveEffective Sample.firstTable
        ((Sample.library { Sample.sharedSpace with records := ∅ }).withSpaceGroups Sample.firstTable
          Sample.keys Sample.chainId Sample.firstPull.records) Sample.pinnedMember).toOption,
      effective.payload.port = Sample.confirmation.endpoint.port := by
  decide +kernel

/-- Without the port change the pull brings a correct pin. -/
theorem pulled_pin_correct :
    ∃ world, PinWorld.Run Sample.pinTable (fun _ => "") (fun _ => Sample.keys)
        (PinWorld.PullsConfirmed Sample.pinTable fun _ => Sample.keys) Sample.sharing world ∧
      (∃ row, ((world.device true).spaceRecords Sample.chainId)[recordKey .Host Sample.hostId]? = some row ∧
        row.record = Sample.pinnedRecord) ∧ PinWorld.PinsCorrect Sample.pinTable world := by
  obtain ⟨pinned, pinRan, shown⟩ := Sample.pinEdit_shown
  have facts : ∃ merged ∈ (pullSpace Sample.pinTable Sample.keys (Sample.sharedLibrary Sample.otherDevice)
      Sample.chainId Sample.pinPull 2 .Compatible).toOption,
      ∃ row ∈ (merged.spaceRecords Sample.chainId)[recordKey .Host Sample.hostId]?,
        row.record = Sample.pinnedRecord := by
    decide +kernel
  obtain ⟨merged, pullRan, row, held, same⟩ := facts
  rw [Result.mem_toOption] at pullRan
  have first : PinWorld.Run Sample.pinTable (fun _ => "") (fun _ => Sample.keys)
      (PinWorld.PullsConfirmed Sample.pinTable fun _ => Sample.keys) Sample.sharing _ :=
    .step .start (show PinWorld.PullsConfirmed _ _ _ _ (.edit _ _) from trivial) (.edit (i := false) pinRan)
  have noted : Sample.confirmation ∈ [] ++ LibraryEdit.confirms Sample.pinTable
      (Sample.sharedLibrary Sample.device) 30 (.edit Sample.pinEdit) := by
    simp [Sample.pinEdit_confirms]
  have may : PinWorld.PullsConfirmed Sample.pinTable (fun _ => Sample.keys) (Sample.sharing.after false pinned _)
      true (.pull Sample.chainId Sample.pinPull 2 .Compatible) := Sample.pinPull_confirmed noted
  have second := first.step may (.pull (i := true) (fun envelope member record opened => by
    rw [Sample.pinPull_opens member opened]
    exact .inr shown) pullRan)
  exact ⟨_, second, ⟨row, held, same⟩,
    pins_correct_of_confirmed_pulls _ _ _ _ _ Sample.sharing_startsCorrect second⟩

end Sshelter.Sync
