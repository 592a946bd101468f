import Sshelter.Sync.Planner
import Sshelter.Verified.RevisionOrder

/-! # What planning adds

The planner works on a view in which everything known of an alias is one row.  The view is
described alias by alias, the planned revisions are read off it, and since no two of them have
the same alias, each is found in the section afterwards as it was planned.
-/

namespace Sshelter.Sync.V2

/-- Rows are filed under the key of their kind and id, and every number is a `u64`. -/
structure SpaceState.Valid (space : SpaceState) : Prop where
  keyed : ∀ (key : String) row, space.records[key]? = some row →
    key = recordKey row.record.kind row.record.id
  records : ∀ (key : String) row, space.records[key]? = some row →
    row.record.version ≤ u64Max ∧ row.record.updatedAtMs ≤ u64Max
  pending : ∀ (alias_ : String) pending, space.pendingApprovals[alias_]? = some pending →
    pending.record.version ≤ u64Max ∧ pending.record.updatedAtMs ≤ u64Max
  declined : ∀ (alias_ : String) declined, space.declined[alias_]? = some declined →
    declined.version ≤ u64Max ∧ declined.updatedAtMs ≤ u64Max

/-- Every row is filed under the key of its record. -/
def SpaceState.Keyed (space : SpaceState) : Prop :=
  ∀ (key : String) row, space.records[key]? = some row → key = recordKey row.record.kind row.record.id

/-- A revision of the alias this device knows of: cached, waiting or declined. -/
inductive KnownRevision (space : SpaceState) (alias_ : String) : Nat → Nat → Prop
  | cached {row : LocalRecord} (held : space.records[recordKey .Host alias_]? = some row) :
      KnownRevision space alias_ row.record.version row.record.updatedAtMs
  | pending {pending : PendingApproval} (held : space.pendingApprovals[alias_]? = some pending) :
      KnownRevision space alias_ pending.record.version pending.record.updatedAtMs
  | declined {declined : DeclinedVersion} (held : space.declined[alias_]? = some declined) :
      KnownRevision space alias_ declined.version declined.updatedAtMs

/-- The text of the live cached host. -/
def cachedText (cached : BTreeMap LocalRecord) (alias_ : String) : Option String :=
  (((cached[recordKey .Host alias_]?).map (·.record)).filter fun r => !r.deleted).bind
    fun r => payloadText r.payload

/-- The file and the cache disagree about the alias: a block has another text than the cached
live host, or a cached live host has no block. -/
def Differs (cached : BTreeMap LocalRecord) (blocks : List HostBlockText) (alias_ : String) : Prop :=
  (∃ block ∈ blocks, block.aliasName = alias_ ∧ cachedText cached alias_ ≠ some block.text) ∨
    ((∃ row, cached[recordKey .Host alias_]? = some row ∧ row.record.deleted = false) ∧
      ∀ block ∈ blocks, block.aliasName ≠ alias_)

theorem payloadText_hostPayload (text : String) : payloadText (hostPayload text) = some text := by
  simp [payloadText, hostPayload, Json.record, Json.field, Json.asU32, Json.uint, Json.asStr, List.lookup]

/-! ## The view -/

section View
variable {space : SpaceState} {view : BTreeMap LocalRecord} {alias_ : String}

/-- What one alias becomes in the view. -/
def overlayRow (space : SpaceState) (alias_ : String) (row : Option LocalRecord) : Option LocalRecord :=
  match knownRemote space alias_ with
  | none => row
  | some known => some (knownRow alias_ known row)

theorem knownRow_knownRow (known : DeclinedVersion) (row : Option LocalRecord) :
    knownRow alias_ known (some (knownRow alias_ known row)) = knownRow alias_ known row := by
  cases row <;> simp [knownRow]

theorem overlayRow_overlayRow (row : Option LocalRecord) :
    overlayRow space alias_ (overlayRow space alias_ row) = overlayRow space alias_ row := by
  unfold overlayRow
  split
  · rfl
  · rw [knownRow_knownRow]

theorem get?_overlayKnown (other : String) :
    (overlayKnown space view other)[recordKey .Host alias_]? =
      if other = alias_ then overlayRow space alias_ view[recordKey .Host alias_]?
      else view[recordKey .Host alias_]? := by
  unfold overlayKnown overlayRow
  by_cases same : other = alias_
  · subst same
    rw [if_pos rfl]
    cases knownRemote space other with
    | none => rfl
    | some known => exact BTreeMap.get?_insert_self _ _ _
  · have apart : recordKey .Host other ≠ recordKey .Host alias_ := fun equal =>
      same (recordKey_injective equal).2
    rw [if_neg same]
    split
    · rfl
    · exact BTreeMap.get?_insert_ne _ _ apart

/-- Laying the same alias over twice is laying it over once. -/
theorem get?_foldl_overlayKnown (aliases : List String) (view : BTreeMap LocalRecord) :
    (aliases.foldl (overlayKnown space) view)[recordKey .Host alias_]? =
      if alias_ ∈ aliases then overlayRow space alias_ view[recordKey .Host alias_]?
      else view[recordKey .Host alias_]? := by
  induction aliases generalizing view with
  | nil => rfl
  | cons other rest ih =>
    rw [List.foldl_cons, ih, get?_overlayKnown]
    by_cases same : other = alias_
    · subst same
      simp [overlayRow_overlayRow]
    · simp [same, Ne.symm same]

theorem get?_foldl_overlayKnown_other {key : String} (foreign : ∀ other, key ≠ recordKey .Host other)
    (aliases : List String) (view : BTreeMap LocalRecord) :
    (aliases.foldl (overlayKnown space) view)[key]? = view[key]? := by
  induction aliases generalizing view with
  | nil => rfl
  | cons other rest ih =>
    rw [List.foldl_cons, ih]
    unfold overlayKnown
    split
    · rfl
    · exact BTreeMap.get?_insert_ne _ _ (Ne.symm (foreign other))

theorem mem_keys {α : Type} {m : BTreeMap α} {key : String} :
    key ∈ m.toList.map (·.1) ↔ ∃ value, m[key]? = some value := by
  simp only [List.mem_map, Prod.exists, exists_and_right, exists_eq_right, BTreeMap.mem_toList]

theorem get?_plannerView (space : SpaceState) (alias_ : String) :
    (plannerView space)[recordKey .Host alias_]? =
      overlayRow space alias_ space.records[recordKey .Host alias_]? := by
  unfold plannerView
  rw [get?_foldl_overlayKnown]
  split
  · rfl
  · rename_i outside
    rw [List.mem_append, mem_keys, mem_keys, not_or] at outside
    have pending : space.pendingApprovals[alias_]? = none := by
      simpa [Option.eq_none_iff_forall_ne_some] using outside.1
    have declined : space.declined[alias_]? = none := by
      simpa [Option.eq_none_iff_forall_ne_some] using outside.2
    simp [overlayRow, knownRemote, pending, declined]

/-- Laying over what is known changes numbers only: no text and no tombstone flag. -/
theorem cachedText_plannerView (space : SpaceState) (alias_ : String) :
    cachedText (plannerView space) alias_ = cachedText space.records alias_ := by
  unfold cachedText
  rw [get?_plannerView, overlayRow]
  split
  · rfl
  · cases space.records[recordKey .Host alias_]? with
    | none => simp [knownRow]
    | some row => cases deleted : row.record.deleted <;> simp [knownRow, deleted, Option.filter]

theorem keyed_plannerView (keyed : space.Keyed) {key : String} {row : LocalRecord}
    (held : (plannerView space)[key]? = some row) : key = recordKey row.record.kind row.record.id := by
  by_cases own : ∃ other, key = recordKey .Host other
  · obtain ⟨other, rfl⟩ := own
    rw [get?_plannerView, overlayRow] at held
    split at held
    · exact keyed _ _ held
    · cases here : space.records[recordKey .Host other]? with
      | none =>
        rw [here] at held
        cases held
        rfl
      | some cached =>
        rw [here] at held
        cases held
        have filed := keyed _ _ here
        exact filed
  · rw [plannerView, get?_foldl_overlayKnown_other (not_exists.mp own)] at held
    exact keyed _ _ held

end View

/-! ## The planned revisions -/

section Planned
variable {space : SpaceState} {cached : BTreeMap LocalRecord} {blocks : List HostBlockText}
  {deviceId : String} {changedAt : String → Nat}

/-- The revision that follows what the planner sees of the alias. -/
def nextRevision (deviceId : String) (changedAt : String → Nat) (cached : BTreeMap LocalRecord)
    (alias_ : String) (deleted : Bool) (payload : Json) : Record :=
  let previous := (cached[recordKey .Host alias_]?).map (·.record)
  { kind := .Host
    id := alias_
    version := (previous.map fun r => wrappingSucc r.version).getD 1
    updatedAtMs := nextTimestamp (changedAt alias_) (previous.map (·.updatedAtMs))
    deviceId, deleted, payload }

theorem changedBlock_eq_some {block : HostBlockText} {record : Record} :
    changedBlock deviceId changedAt cached block = some record ↔
      cachedText cached block.aliasName ≠ some block.text ∧
        nextRevision deviceId changedAt cached block.aliasName false (hostPayload block.text) = record := by
  have same : (((cachedText cached block.aliasName).map fun text => text == block.text).getD false) = true ↔
      cachedText cached block.aliasName = some block.text := by
    cases cachedText cached block.aliasName <;> simp
  unfold changedBlock
  simp only
  split
  · rename_i unchanged
    have equal := same.mp unchanged
    simp [equal]
  · rename_i changed
    have apart : cachedText cached block.aliasName ≠ some block.text := fun equal => changed (same.mpr equal)
    simp only [apart, ne_eq, not_false_eq_true, true_and, Option.some.injEq]
    rfl

theorem removedHost_eq_some {row : LocalRecord} {record : Record}
    (held : cached[recordKey row.record.kind row.record.id]? = some row) :
    removedHost deviceId changedAt blocks row = some record ↔
      row.record.kind = .Host ∧ row.record.deleted = false ∧
        (∀ block ∈ blocks, block.aliasName ≠ row.record.id) ∧
        nextRevision deviceId changedAt cached row.record.id true .null = record := by
  unfold removedHost
  simp only
  split
  · rename_i skipped
    rw [Bool.or_eq_true, bne_iff_ne] at skipped
    refine iff_of_false (by simp) ?_
    rintro ⟨kind, live, _⟩
    simp [kind, live] at skipped
  · rename_i kept
    simp only [Bool.or_eq_true, bne_iff_ne, ne_eq, not_or, Decidable.not_not, Bool.not_eq_true] at kept
    rw [kept.1] at held
    split
    · rename_i present
      refine iff_of_false (by simp) ?_
      rintro ⟨_, _, absent, _⟩
      obtain ⟨block, member, same⟩ := List.any_eq_true.mp present
      exact absent block member (by simpa using same)
    · rename_i absent
      have free : ∀ block ∈ blocks, block.aliasName ≠ row.record.id := by simpa using absent
      have made : nextRevision deviceId changedAt cached row.record.id true .null =
          { kind := .Host, id := row.record.id, version := wrappingSucc row.record.version
            updatedAtMs := nextTimestamp (changedAt row.record.id) (some row.record.updatedAtMs)
            deviceId, deleted := true, payload := .null } := by
        simp [nextRevision, held]
      rw [made, Option.some.injEq]
      exact ⟨fun equal => ⟨kept.1, kept.2, free, equal⟩, fun ⟨_, _, _, equal⟩ => equal⟩

/-- Every planned revision follows the view of its alias, and there is one exactly where the
file and the cache differ. -/
theorem mem_plannedRecords (keyed : space.Keyed) {record : Record} :
    record ∈ plannedRecords space blocks deviceId changedAt ↔
      (∃ block ∈ blocks, cachedText space.records block.aliasName ≠ some block.text ∧
        nextRevision deviceId changedAt (plannerView space) block.aliasName false (hostPayload block.text) =
          record) ∨
      (∃ alias_, (∃ row, space.records[recordKey .Host alias_]? = some row ∧ row.record.deleted = false) ∧
        (∀ block ∈ blocks, block.aliasName ≠ alias_) ∧
        nextRevision deviceId changedAt (plannerView space) alias_ true .null = record) := by
  unfold plannedRecords detectLocalChanges
  rw [List.mem_append, List.mem_filterMap, List.mem_filterMap]
  apply or_congr
  · apply exists_congr
    intro block
    rw [changedBlock_eq_some, cachedText_plannerView]
  · constructor
    · rintro ⟨row, member, made⟩
      obtain ⟨key, held⟩ := BTreeMap.mem_values.mp member
      obtain rfl := keyed_plannerView keyed held
      obtain ⟨kind, live, absent, rfl⟩ := (removedHost_eq_some held).mp made
      refine ⟨row.record.id, ?_, absent, rfl⟩
      rw [kind, get?_plannerView, overlayRow] at held
      split at held
      · exact ⟨row, held, live⟩
      · cases here : space.records[recordKey .Host row.record.id]? with
        | none =>
          -- a placeholder is never live
          rw [here] at held
          have same := Option.some.inj held
          rw [← same] at live
          cases live
        | some old =>
          rw [here] at held
          have same := Option.some.inj held
          rw [← same] at live
          exact ⟨old, rfl, live⟩
    · rintro ⟨alias_, ⟨row, held, live⟩, absent, rfl⟩
      obtain ⟨kind, rfl⟩ := recordKey_injective (keyed _ _ held)
      obtain ⟨seen, shown, kindSeen, idSeen, liveSeen⟩ : ∃ seen,
          (plannerView space)[recordKey .Host row.record.id]? = some seen ∧
            seen.record.kind = .Host ∧ seen.record.id = row.record.id ∧ seen.record.deleted = false := by
        rw [get?_plannerView, overlayRow, held]
        split
        · exact ⟨row, rfl, kind.symm, rfl, live⟩
        · exact ⟨_, rfl, kind.symm, rfl, live⟩
      refine ⟨seen, BTreeMap.mem_values.mpr ⟨_, shown⟩, ?_⟩
      rw [removedHost_eq_some (by rw [kindSeen, idSeen]; exact shown)]
      exact ⟨kindSeen, liveSeen, by rw [idSeen]; exact absent, by rw [idSeen]⟩

theorem exists_planned_iff (keyed : space.Keyed) (deviceId : String) (changedAt : String → Nat)
    {alias_ : String} :
    (∃ record ∈ plannedRecords space blocks deviceId changedAt, record.id = alias_) ↔
      Differs space.records blocks alias_ := by
  simp only [mem_plannedRecords keyed, Differs]
  constructor
  · rintro ⟨record, ⟨block, member, changed, rfl⟩ | ⟨other, held, absent, rfl⟩, rfl⟩
    · exact .inl ⟨block, member, rfl, changed⟩
    · exact .inr ⟨held, absent⟩
  · rintro (⟨block, member, rfl, changed⟩ | ⟨held, absent⟩)
    · exact ⟨_, .inl ⟨block, member, changed, rfl⟩, rfl⟩
    · exact ⟨_, .inr ⟨alias_, held, absent, rfl⟩, rfl⟩

/-- Planning adds nothing exactly when the file and the cache agree everywhere. -/
theorem plannedRecords_eq_nil (keyed : space.Keyed) :
    plannedRecords space blocks deviceId changedAt = [] ↔ ∀ alias_, ¬ Differs space.records blocks alias_ := by
  rw [List.eq_nil_iff_forall_not_mem]
  constructor
  · intro none_ alias_ differs
    obtain ⟨record, member, _⟩ := (exists_planned_iff keyed deviceId changedAt).mpr differs
    exact none_ record member
  · intro same record member
    exact same record.id ((exists_planned_iff keyed deviceId changedAt).mp ⟨record, member, rfl⟩)

/-- A planned revision follows the view of its alias. -/
theorem eq_nextRevision (valid : space.Valid) {record : Record}
    (member : record ∈ plannedRecords space blocks deviceId changedAt) :
    ∃ deleted payload,
      record = nextRevision deviceId changedAt (plannerView space) record.id deleted payload := by
  obtain ⟨block, _, _, rfl⟩ | ⟨alias_, _, _, rfl⟩ := (mem_plannedRecords valid.keyed).mp member
  · exact ⟨_, _, rfl⟩
  · exact ⟨_, _, rfl⟩

theorem filterMap_map_sublist {α β γ : Type} {f : α → Option β} {k : α → γ} {k' : β → γ} {items : List α}
    (same : ∀ a ∈ items, ∀ b, f a = some b → k' b = k a) :
    ((items.filterMap f).map k').Sublist (items.map k) := by
  induction items with
  | nil => exact .slnil
  | cons a rest ih =>
    have later := ih fun a' member => same a' (List.mem_cons_of_mem _ member)
    rw [List.map_cons]
    cases made : f a with
    | none =>
      rw [List.filterMap_cons_none made]
      exact later.cons _
    | some b =>
      rw [List.filterMap_cons_some made, List.map_cons, same a List.mem_cons_self b made]
      exact later.cons_cons _

/-- No alias is planned twice. -/
theorem plannedRecords_nodup (valid : space.Valid) (distinct : (blocks.map (·.aliasName)).Nodup) :
    ((plannedRecords space blocks deviceId changedAt).map (·.id)).Nodup := by
  unfold plannedRecords detectLocalChanges
  rw [List.map_append, List.nodup_append]
  refine ⟨?_, ?_, ?_⟩
  · refine distinct.sublist (filterMap_map_sublist fun block _ record made => ?_)
    rw [← (changedBlock_eq_some.mp made).2]
    rfl
  · apply List.Nodup.of_map (recordKey .Host)
    rw [List.map_map]
    refine (plannerView space).toList_keys_nodup.sublist ?_
    unfold BTreeMap.values
    rw [List.filterMap_map]
    refine filterMap_map_sublist fun entry member record made => ?_
    obtain ⟨key, row⟩ := entry
    have held := BTreeMap.mem_toList.mp member
    obtain rfl := keyed_plannerView valid.keyed held
    obtain ⟨kind, _, _, rfl⟩ := (removedHost_eq_some held).mp made
    simp [nextRevision, kind]
  · intro a fromBlock b fromRow
    obtain ⟨record, member, rfl⟩ := List.mem_map.mp fromBlock
    obtain ⟨record', member', rfl⟩ := List.mem_map.mp fromRow
    obtain ⟨block, inBlocks, made⟩ := List.mem_filterMap.mp member
    obtain ⟨row, inRows, made'⟩ := List.mem_filterMap.mp member'
    obtain ⟨key, held⟩ := BTreeMap.mem_values.mp inRows
    obtain rfl := keyed_plannerView valid.keyed held
    obtain ⟨_, _, absent, rfl⟩ := (removedHost_eq_some held).mp made'
    obtain ⟨_, rfl⟩ := changedBlock_eq_some.mp made
    exact absent block inBlocks

end Planned

/-! ## The section afterwards -/

section After
variable {space : SpaceState} {blocks : List HostBlockText} {deviceId : String} {changedAt : String → Nat}

/-- The newest row number known of an alias. -/
def plannedSeq (space : SpaceState) (alias_ : String) : Nat :=
  max ((space.records[recordKey .Host alias_]?.map (·.seq)).getD 0)
    (((knownRemote space alias_).map (·.seq)).getD 0)

/-- Nothing of the alias differs between the sections. -/
structure SameAlias (alias_ : String) (a b : SpaceState) : Prop where
  records : a.records[recordKey .Host alias_]? = b.records[recordKey .Host alias_]?
  pending : a.pendingApprovals[alias_]? = b.pendingApprovals[alias_]?
  declined : a.declined[alias_]? = b.declined[alias_]?

theorem SameAlias.trans {alias_ : String} {a b c : SpaceState} (first : SameAlias alias_ a b)
    (second : SameAlias alias_ b c) : SameAlias alias_ a c :=
  ⟨first.records.trans second.records, first.pending.trans second.pending,
    first.declined.trans second.declined⟩

theorem SameAlias.plannedSeq {alias_ : String} {a b : SpaceState} (same : SameAlias alias_ a b) :
    V2.plannedSeq a alias_ = V2.plannedSeq b alias_ := by
  simp only [V2.plannedSeq, knownRemote, same.records, same.pending, same.declined]

theorem planRecord_other {record : Record} (kind : record.kind = .Host) {alias_ : String}
    (apart : record.id ≠ alias_) : SameAlias alias_ (planRecord space record) space where
  records := by
    refine BTreeMap.get?_insert_ne _ _ fun equal => apart ?_
    rw [kind] at equal
    exact (recordKey_injective equal).2
  pending := BTreeMap.get?_erase_ne _ apart
  declined := BTreeMap.get?_erase_ne _ apart

/-- An alias that is not planned keeps everything. -/
theorem foldl_planRecord_other {planned : List Record} (hosts : ∀ record ∈ planned, record.kind = .Host)
    {alias_ : String} (apart : ∀ record ∈ planned, record.id ≠ alias_) (space : SpaceState) :
    SameAlias alias_ (planned.foldl planRecord space) space := by
  induction planned generalizing space with
  | nil => exact ⟨rfl, rfl, rfl⟩
  | cons record rest ih =>
    rw [List.foldl_cons]
    refine (ih (fun r member => hosts r (List.mem_cons_of_mem _ member))
      (fun r member => apart r (List.mem_cons_of_mem _ member)) _).trans ?_
    exact planRecord_other (hosts record List.mem_cons_self) (apart record List.mem_cons_self)

/-- What a planned revision leaves: the revision in the cache, to be sent, and nothing waiting. -/
structure PlannedRow (space after : SpaceState) (record : Record) : Prop where
  row : after.records[recordKey .Host record.id]? =
    some { record, seq := plannedSeq space record.id, dirty := true }
  pending : after.pendingApprovals[record.id]? = none
  declined : after.declined[record.id]? = none

theorem foldl_planRecord_mem {planned : List Record} (hosts : ∀ record ∈ planned, record.kind = .Host)
    (distinct : (planned.map (·.id)).Nodup) (space : SpaceState) :
    ∀ record ∈ planned, PlannedRow space (planned.foldl planRecord space) record := by
  induction planned generalizing space with
  | nil => exact fun record member => absurd member List.not_mem_nil
  | cons head rest ih =>
    rw [List.map_cons, List.nodup_cons] at distinct
    have later : ∀ record ∈ rest, record.kind = .Host := fun r member =>
      hosts r (List.mem_cons_of_mem _ member)
    have kind : head.kind = .Host := hosts head List.mem_cons_self
    intro record member
    rw [List.foldl_cons]
    obtain rfl | member := List.mem_cons.mp member
    · have apart : ∀ r ∈ rest, r.id ≠ record.id := by
        intro r inRest equal
        exact distinct.1 (List.mem_map.mpr ⟨r, inRest, equal⟩)
      have kept := foldl_planRecord_other later apart (planRecord space record)
      have first : PlannedRow space (planRecord space record) record := by
        constructor
        · simp [planRecord, kind, plannedSeq]
        · simp [planRecord]
        · simp [planRecord]
      exact ⟨kept.records.trans first.row, kept.pending.trans first.pending,
        kept.declined.trans first.declined⟩
    · have apart : head.id ≠ record.id := by
        intro equal
        exact distinct.1 (List.mem_map.mpr ⟨record, member, equal.symm⟩)
      have planned := ih later distinct.2 (planRecord space head) record member
      refine ⟨?_, planned.pending, planned.declined⟩
      rw [planned.row, (planRecord_other kind apart).plannedSeq]

theorem foldl_planRecord_foreign {planned : List Record} {key : String}
    (foreign : ∀ record ∈ planned, recordKey record.kind record.id ≠ key) (space : SpaceState) :
    (planned.foldl planRecord space).records[key]? = space.records[key]? := by
  induction planned generalizing space with
  | nil => rfl
  | cons head rest ih =>
    rw [List.foldl_cons, ih fun r member => foreign r (List.mem_cons_of_mem _ member)]
    exact BTreeMap.get?_insert_ne _ _ (foreign head List.mem_cons_self)

theorem planned_kind (valid : space.Valid) {record : Record}
    (member : record ∈ plannedRecords space blocks deviceId changedAt) : record.kind = .Host := by
  obtain ⟨deleted, payload, made⟩ := eq_nextRevision valid member
  rw [made]
  rfl

theorem planHosts_mem (valid : space.Valid) (distinct : (blocks.map (·.aliasName)).Nodup) {record : Record}
    (member : record ∈ plannedRecords space blocks deviceId changedAt) :
    PlannedRow space (planHosts space blocks deviceId changedAt).1 record :=
  foldl_planRecord_mem (fun _ => planned_kind valid) (plannedRecords_nodup valid distinct) space record member

theorem planHosts_other (valid : space.Valid) (deviceId : String) (changedAt : String → Nat)
    {alias_ : String} (same : ¬ Differs space.records blocks alias_) :
    SameAlias alias_ (planHosts space blocks deviceId changedAt).1 space := by
  refine foldl_planRecord_other (fun _ => planned_kind valid) ?_ space
  intro record member equal
  exact same ((exists_planned_iff valid.keyed deviceId changedAt).mp ⟨record, member, equal⟩)

/-- The file and the cache agree about every alias. -/
theorem planHosts_settled (valid : space.Valid) (distinct : (blocks.map (·.aliasName)).Nodup)
    (alias_ : String) :
    ¬ Differs (planHosts space blocks deviceId changedAt).1.records blocks alias_ := by
  by_cases differs : Differs space.records blocks alias_
  · obtain ⟨record, member, rfl⟩ := (exists_planned_iff valid.keyed deviceId changedAt).mpr differs
    have row := (planHosts_mem valid distinct member).row
    obtain ⟨block, inBlocks, _, rfl⟩ | ⟨other, _, absent, rfl⟩ := (mem_plannedRecords valid.keyed).mp member
    · rintro (⟨block', inBlocks', same, changed⟩ | ⟨_, absent⟩)
      · obtain rfl := List.inj_on_of_nodup_map distinct inBlocks' inBlocks same
        apply changed
        simp only [cachedText, row, Option.map_some]
        exact payloadText_hostPayload _
      · exact absent block inBlocks rfl
    · rintro (⟨block, inBlocks, same, _⟩ | ⟨⟨live, held, notDeleted⟩, _⟩)
      · exact absent block inBlocks same
      · rw [row] at held
        cases held
        cases notDeleted
  · have same := planHosts_other valid deviceId changedAt differs
    simp only [Differs, cachedText, same.records] at differs ⊢
    exact differs

theorem wrappingSucc_le (n : Nat) : wrappingSucc n ≤ u64Max := by
  have := Nat.mod_lt (n + 1) (show 0 < 2 ^ 64 by decide)
  unfold wrappingSucc u64Max
  omega

theorem nextRevision_fits (clock : ∀ alias_, changedAt alias_ ≤ u64Max) (cached : BTreeMap LocalRecord)
    (alias_ : String) (deleted : Bool) (payload : Json) :
    (nextRevision deviceId changedAt cached alias_ deleted payload).version ≤ u64Max ∧
      (nextRevision deviceId changedAt cached alias_ deleted payload).updatedAtMs ≤ u64Max := by
  unfold nextRevision nextTimestamp
  cases cached[recordKey .Host alias_]? with
  | none => exact ⟨show 1 ≤ u64Max by decide, clock alias_⟩
  | some row =>
    refine ⟨wrappingSucc_le _, ?_⟩
    simp only [Option.map_some]
    split
    · exact wrappingSucc_le _
    · exact clock alias_

/-- A row of the section afterwards was planned or was there before. -/
theorem planHosts_rows (valid : space.Valid) (distinct : (blocks.map (·.aliasName)).Nodup) {key : String}
    {row : LocalRecord} (held : (planHosts space blocks deviceId changedAt).1.records[key]? = some row) :
    (row.record ∈ plannedRecords space blocks deviceId changedAt ∧ key = recordKey .Host row.record.id) ∨
      space.records[key]? = some row := by
  by_cases planned : ∃ record ∈ plannedRecords space blocks deviceId changedAt,
      recordKey record.kind record.id = key
  · obtain ⟨record, member, rfl⟩ := planned
    rw [planned_kind valid member, (planHosts_mem valid distinct member).row] at held
    cases held
    exact .inl ⟨member, by rw [planned_kind valid member]⟩
  · right
    rw [← held]
    refine (foldl_planRecord_foreign ?_ space).symm
    intro record member equal
    exact planned ⟨record, member, equal⟩

theorem planHosts_valid (valid : space.Valid) (distinct : (blocks.map (·.aliasName)).Nodup)
    (clock : ∀ alias_, changedAt alias_ ≤ u64Max) :
    (planHosts space blocks deviceId changedAt).1.Valid := by
  have waiting : ∀ alias_ : String,
      ((planHosts space blocks deviceId changedAt).1.pendingApprovals[alias_]? = none ∧
        (planHosts space blocks deviceId changedAt).1.declined[alias_]? = none) ∨
      SameAlias alias_ (planHosts space blocks deviceId changedAt).1 space := by
    intro alias_
    by_cases differs : Differs space.records blocks alias_
    · obtain ⟨record, member, rfl⟩ := (exists_planned_iff valid.keyed deviceId changedAt).mpr differs
      have planned := planHosts_mem valid distinct member
      exact .inl ⟨planned.pending, planned.declined⟩
    · exact .inr (planHosts_other valid deviceId changedAt differs)
  refine ⟨fun key row held => ?_, fun key row held => ?_, fun alias_ pending held => ?_,
    fun alias_ declined held => ?_⟩
  · obtain ⟨member, keyed⟩ | before := planHosts_rows valid distinct held
    · rw [planned_kind valid member]
      exact keyed
    · exact valid.keyed key row before
  · obtain ⟨member, _⟩ | before := planHosts_rows valid distinct held
    · obtain ⟨deleted, payload, made⟩ := eq_nextRevision valid member
      rw [made]
      exact nextRevision_fits clock _ _ _ _
    · exact valid.records key row before
  · obtain ⟨gone, _⟩ | same := waiting alias_
    · rw [gone] at held
      cases held
    · exact valid.pending alias_ pending (same.pending ▸ held)
  · obtain ⟨_, gone⟩ | same := waiting alias_
    · rw [gone] at held
      cases held
    · exact valid.declined alias_ declined (same.declined ▸ held)

end After

/-! ## What is known of an alias -/

section Known
variable {space : SpaceState} {alias_ : String}

theorem knownRemote_pending {pending : PendingApproval} (held : space.pendingApprovals[alias_]? = some pending) :
    ∃ known, knownRemote space alias_ = some known ∧ pending.record.version ≤ known.version ∧
      pending.record.updatedAtMs ≤ known.updatedAtMs ∧ pending.seq ≤ known.seq := by
  cases declined : space.declined[alias_]? with
  | none => exact ⟨_, by simp [knownRemote, held, declined]; rfl, le_refl _, le_refl _, le_refl _⟩
  | some other =>
    exact ⟨_, by simp [knownRemote, held, declined]; rfl, le_max_left _ _, le_max_left _ _, le_max_left _ _⟩

theorem knownRemote_declined {declined : DeclinedVersion} (held : space.declined[alias_]? = some declined) :
    ∃ known, knownRemote space alias_ = some known ∧ declined.version ≤ known.version ∧
      declined.updatedAtMs ≤ known.updatedAtMs ∧ declined.seq ≤ known.seq := by
  cases pending : space.pendingApprovals[alias_]? with
  | none => exact ⟨declined, by simp [knownRemote, held, pending], le_refl _, le_refl _, le_refl _⟩
  | some other =>
    exact ⟨_, by simp [knownRemote, held, pending]; rfl, le_max_right _ _, le_max_right _ _, le_max_right _ _⟩

/-- The numbers kept of what waits and what was declined are those of one of them each. -/
theorem knownRemote_attained {known : DeclinedVersion} (found : knownRemote space alias_ = some known) :
    (∃ time, KnownRevision space alias_ known.version time) ∧
      ∃ version, KnownRevision space alias_ version known.updatedAtMs := by
  cases pending : space.pendingApprovals[alias_]? with
  | none =>
    have declined : space.declined[alias_]? = some known := by simpa [knownRemote, pending] using found
    exact ⟨⟨_, .declined declined⟩, ⟨_, .declined declined⟩⟩
  | some waiting =>
    cases declined : space.declined[alias_]? with
    | none =>
      simp only [knownRemote, pending, declined, Option.map_some, Option.some.injEq] at found
      subst found
      exact ⟨⟨_, .pending pending⟩, ⟨_, .pending pending⟩⟩
    | some refused =>
      simp only [knownRemote, pending, declined, Option.map_some, Option.some.injEq] at found
      subst found
      refine ⟨?_, ?_⟩
      · obtain ⟨same, _⟩ | ⟨same, _⟩ := max_cases waiting.record.version refused.version
        · exact ⟨_, by simp only [same]; exact .pending pending⟩
        · exact ⟨_, by simp only [same]; exact .declined declined⟩
      · obtain ⟨same, _⟩ | ⟨same, _⟩ := max_cases waiting.record.updatedAtMs refused.updatedAtMs
        · exact ⟨_, by simp only [same]; exact .pending pending⟩
        · exact ⟨_, by simp only [same]; exact .declined declined⟩

theorem overlayRow_of_known {known : DeclinedVersion} (found : knownRemote space alias_ = some known)
    (row : Option LocalRecord) :
    ∃ seen, overlayRow space alias_ row = some seen ∧ known.version ≤ seen.record.version ∧
      known.updatedAtMs ≤ seen.record.updatedAtMs := by
  rw [overlayRow, found]
  cases row with
  | none => exact ⟨_, rfl, le_refl _, le_refl _⟩
  | some row => exact ⟨_, rfl, le_max_right _ _, le_max_right _ _⟩

/-- The view shows nothing older than what is known. -/
theorem view_of_known {version time : Nat} (known : KnownRevision space alias_ version time) :
    ∃ seen, (plannerView space)[recordKey .Host alias_]? = some seen ∧ version ≤ seen.record.version ∧
      time ≤ seen.record.updatedAtMs := by
  rw [get?_plannerView]
  cases known with
  | cached held =>
    rw [held, overlayRow]
    split
    · exact ⟨_, rfl, le_refl _, le_refl _⟩
    · exact ⟨_, rfl, le_max_left _ _, le_max_left _ _⟩
  | pending held =>
    obtain ⟨known, found, version, time, _⟩ := knownRemote_pending held
    obtain ⟨seen, shown, version', time'⟩ :=
      overlayRow_of_known found space.records[recordKey .Host alias_]?
    exact ⟨seen, shown, le_trans version version', le_trans time time'⟩
  | declined held =>
    obtain ⟨known, found, version, time, _⟩ := knownRemote_declined held
    obtain ⟨seen, shown, version', time'⟩ :=
      overlayRow_of_known found space.records[recordKey .Host alias_]?
    exact ⟨seen, shown, le_trans version version', le_trans time time'⟩

/-- And nothing newer: each of its two numbers is that of a known revision. -/
theorem view_attained {seen : LocalRecord} (shown : (plannerView space)[recordKey .Host alias_]? = some seen) :
    (∃ time, KnownRevision space alias_ seen.record.version time) ∧
      ∃ version, KnownRevision space alias_ version seen.record.updatedAtMs := by
  rw [get?_plannerView, overlayRow] at shown
  split at shown
  · exact ⟨⟨_, .cached shown⟩, ⟨_, .cached shown⟩⟩
  · rename_i known found
    have attained := knownRemote_attained found
    cases held : space.records[recordKey .Host alias_]? with
    | none =>
      rw [held] at shown
      obtain rfl := Option.some.inj shown
      exact attained
    | some row =>
      rw [held] at shown
      obtain rfl := Option.some.inj shown
      refine ⟨?_, ?_⟩
      · obtain ⟨same, _⟩ | ⟨same, _⟩ := max_cases row.record.version known.version
        · exact ⟨_, by simp only [knownRow, same]; exact .cached held⟩
        · simp only [knownRow, same]
          exact attained.1
      · obtain ⟨same, _⟩ | ⟨same, _⟩ := max_cases row.record.updatedAtMs known.updatedAtMs
        · exact ⟨_, by simp only [knownRow, same]; exact .cached held⟩
        · simp only [knownRow, same]
          exact attained.2

theorem KnownRevision.le {version time : Nat} (known : KnownRevision space alias_ version time)
    (valid : space.Valid) : version ≤ u64Max ∧ time ≤ u64Max := by
  cases known with
  | cached held => exact valid.records _ _ held
  | pending held => exact valid.pending _ _ held
  | declined held => exact valid.declined _ _ held

end Known

/-! ## Planned revisions and what is known -/

/-- The planned revision wins over everything known of its alias, starts from its newest row
number, and nothing of it waits any more. -/
structure PlannedWins (space after : SpaceState) (record : Record) : Prop where
  row : ∃ seq, after.records[recordKey .Host record.id]? = some { record, seq, dirty := true } ∧
    (∀ row, space.records[recordKey .Host record.id]? = some row → row.seq ≤ seq) ∧
    (∀ pending, space.pendingApprovals[record.id]? = some pending → pending.seq ≤ seq) ∧
    ∀ declined, space.declined[record.id]? = some declined → declined.seq ≤ seq
  cached : ∀ row, space.records[recordKey .Host record.id]? = some row → Replaces row.record record
  pending : ∀ pending, space.pendingApprovals[record.id]? = some pending → Replaces pending.record record
  -- of a declined revision only the numbers are kept: a later time wins whoever wrote it
  declined : ∀ declined, space.declined[record.id]? = some declined →
    declined.updatedAtMs < record.updatedAtMs ∧ declined.version < record.version
  forgotten : after.pendingApprovals[record.id]? = none ∧ after.declined[record.id]? = none

/-- What planning is for. -/
structure PlansWell (space : SpaceState) (blocks : List HostBlockText) (deviceId : String)
    (changedAt : String → Nat) : Prop where
  wins : ∀ record ∈ plannedRecords space blocks deviceId changedAt,
    PlannedWins space (planHosts space blocks deviceId changedAt).1 record
  recorded : ∀ block ∈ blocks,
    cachedText (planHosts space blocks deviceId changedAt).1.records block.aliasName = some block.text
  exact_ : ∀ (key : String) row, (planHosts space blocks deviceId changedAt).1.records[key]? = some row →
    row.record.kind = .Host → row.record.deleted = false →
    ∃ block ∈ blocks, block.aliasName = row.record.id ∧ payloadText row.record.payload = some block.text
  again : ∀ deviceId' changedAt',
    planHosts (planHosts space blocks deviceId changedAt).1 blocks deviceId' changedAt' =
      ((planHosts space blocks deviceId changedAt).1, 0)

/-- Where the file and the cache differ, no number of a known revision is the largest one. -/
def RoomToCount (space : SpaceState) (blocks : List HostBlockText) : Prop :=
  ∀ alias_, Differs space.records blocks alias_ →
    ∀ version time, KnownRevision space alias_ version time → version < u64Max ∧ time < u64Max

section Main
variable {space : SpaceState} {blocks : List HostBlockText} {deviceId : String} {changedAt : String → Nat}

theorem wrappingSucc_of_lt {n : Nat} (room : n < u64Max) : wrappingSucc n = n + 1 := by
  unfold wrappingSucc
  unfold u64Max at room
  exact Nat.mod_eq_of_lt (by omega)

theorem wrappingSucc_u64Max : wrappingSucc u64Max = 0 := by decide

theorem lt_nextTimestamp {now previous : Nat} (room : previous < u64Max) :
    previous < nextTimestamp now (some previous) := by
  simp only [nextTimestamp]
  split
  · rw [wrappingSucc_of_lt room]
    exact Nat.lt_succ_self _
  · omega

/-- With room to count, a planned revision is above everything known of its alias. -/
theorem planned_above (valid : space.Valid) (room : RoomToCount space blocks) {record : Record}
    (member : record ∈ plannedRecords space blocks deviceId changedAt) {version time : Nat}
    (known : KnownRevision space record.id version time) :
    version < record.version ∧ time < record.updatedAtMs := by
  have differs := (exists_planned_iff valid.keyed deviceId changedAt).mp ⟨record, member, rfl⟩
  obtain ⟨seen, shown, versions, times⟩ := view_of_known known
  obtain ⟨⟨_, top⟩, ⟨_, latest⟩⟩ := view_attained shown
  obtain ⟨deleted, payload, made⟩ := eq_nextRevision valid member
  have countRoom := (room record.id differs _ _ top).1
  have timeRoom := (room record.id differs _ _ latest).2
  have count : record.version = wrappingSucc seen.record.version := by
    rw [made]
    simp [nextRevision, shown]
  have stamp : record.updatedAtMs = nextTimestamp (changedAt record.id) (some seen.record.updatedAtMs) := by
    rw [made]
    simp [nextRevision, shown]
  rw [count, stamp, wrappingSucc_of_lt countRoom]
  exact ⟨Nat.lt_succ_of_le versions, lt_of_le_of_lt times (lt_nextTimestamp timeRoom)⟩

/-- A known time without a successor is followed by zero. -/
theorem planned_wraps (valid : space.Valid) (clock : ∀ alias_, changedAt alias_ ≤ u64Max) {record : Record}
    (member : record ∈ plannedRecords space blocks deviceId changedAt) {version : Nat}
    (known : KnownRevision space record.id version u64Max) : record.updatedAtMs = 0 := by
  obtain ⟨seen, shown, _, times⟩ := view_of_known known
  obtain ⟨_, ⟨_, latest⟩⟩ := view_attained shown
  have top : seen.record.updatedAtMs = u64Max := le_antisymm (latest.le valid).2 times
  obtain ⟨deleted, payload, made⟩ := eq_nextRevision valid member
  rw [made]
  simp only [nextRevision, shown, Option.map_some, top, nextTimestamp]
  rw [if_pos (clock record.id), wrappingSucc_u64Max]

theorem plannedSeq_ge (record : Record) :
    (∀ row, space.records[recordKey .Host record.id]? = some row → row.seq ≤ plannedSeq space record.id) ∧
      (∀ pending, space.pendingApprovals[record.id]? = some pending →
        pending.seq ≤ plannedSeq space record.id) ∧
      ∀ declined, space.declined[record.id]? = some declined →
        declined.seq ≤ plannedSeq space record.id := by
  unfold plannedSeq
  refine ⟨fun row held => ?_, fun pending held => ?_, fun declined held => ?_⟩
  · rw [held]
    exact le_max_left _ _
  · obtain ⟨known, found, _, _, seq⟩ := knownRemote_pending held
    rw [found]
    exact le_trans seq (le_max_right _ _)
  · obtain ⟨known, found, _, _, seq⟩ := knownRemote_declined held
    rw [found]
    exact le_trans seq (le_max_right _ _)

theorem planHosts_of_nil (none_ : plannedRecords space blocks deviceId changedAt = []) :
    planHosts space blocks deviceId changedAt = (space, 0) := by
  unfold planHosts
  rw [none_]
  rfl

/-- Planning keeps its promises exactly where there is room to count: a version or a time at
the limit wraps to zero, and the new revision loses. -/
theorem planHosts_plans_well_iff (valid : space.Valid) (distinct : (blocks.map (·.aliasName)).Nodup)
    (clock : ∀ alias_, changedAt alias_ ≤ u64Max) :
    PlansWell space blocks deviceId changedAt ↔ RoomToCount space blocks := by
  constructor
  · -- a number at its limit wraps to zero, and zero wins over nothing
    intro well alias_ differs version time known
    obtain ⟨record, member, rfl⟩ := (exists_planned_iff valid.keyed deviceId changedAt).mpr differs
    have wins := well.wins record member
    obtain ⟨deleted, payload, made⟩ := eq_nextRevision valid member
    have fits : record.version ≤ u64Max := by
      rw [made]
      exact (nextRevision_fits clock _ _ _ _).1
    have later : version < record.version ∧ time ≤ record.updatedAtMs := by
      cases known with
      | cached held =>
        have replaces := wins.cached _ held
        exact ⟨replaces.version, time_le_of_beats replaces.beats⟩
      | pending held =>
        have replaces := wins.pending _ held
        exact ⟨replaces.version, time_le_of_beats replaces.beats⟩
      | declined held =>
        have after := wins.declined _ held
        exact ⟨after.2, le_of_lt after.1⟩
    refine ⟨lt_of_lt_of_le later.1 fits, lt_of_le_of_ne (known.le valid).2 ?_⟩
    rintro rfl
    have zero := planned_wraps valid clock member known
    rw [zero] at later
    exact absurd later.2 (by decide)
  · intro room
    -- what was planned is recorded, so a second look finds nothing to do
    have settled : ∀ alias_, ¬ Differs (planHosts space blocks deviceId changedAt).1.records blocks alias_ :=
      planHosts_settled valid distinct
    have valid' : (planHosts space blocks deviceId changedAt).1.Valid := planHosts_valid valid distinct clock
    refine ⟨fun record member => ?_, fun block member => ?_, fun key row held kind live => ?_, ?_⟩
    · have planned := planHosts_mem valid distinct member
      have above {version time : Nat} (known : KnownRevision space record.id version time) :=
        planned_above valid room member known
      exact
        { row := ⟨_, planned.row, plannedSeq_ge record⟩
          cached := fun row held => ⟨beats_of_newer (above (.cached held)).2, (above (.cached held)).1⟩
          pending := fun p held => ⟨beats_of_newer (above (.pending held)).2, (above (.pending held)).1⟩
          declined := fun d held => (above (.declined held)).symm
          forgotten := ⟨planned.pending, planned.declined⟩ }
    · by_contra changed
      exact settled block.aliasName (.inl ⟨block, member, rfl, changed⟩)
    · have keyed := valid'.keyed key row held
      rw [kind] at keyed
      subst keyed
      by_contra none_
      apply settled row.record.id
      by_cases present : ∃ block ∈ blocks, block.aliasName = row.record.id
      · obtain ⟨block, member, same⟩ := present
        refine .inl ⟨block, member, same, fun text => none_ ⟨block, member, same, ?_⟩⟩
        simpa [cachedText, held, live, Option.filter] using text
      · exact .inr ⟨⟨row, held, live⟩, fun block member same => present ⟨block, member, same⟩⟩
    · intro deviceId' changedAt'
      exact planHosts_of_nil ((plannedRecords_eq_nil valid'.keyed).mpr settled)

end Main

namespace Sample

/-- A section that caches one host and nothing else. -/
def planningSpace (time : Nat) : SpaceState :=
  { cursorSeq := 1
    records := (∅ : BTreeMap LocalRecord).insert (recordKey .Host "web")
      { record :=
          { kind := .Host, id := "web", version := 1, updatedAtMs := time, deviceId := "other"
            deleted := false, payload := hostPayload "Host web\n" }
        seq := 1, dirty := false }
    pendingApprovals := ∅, declined := ∅, republish := ∅ }

/-- The host was edited in the file. -/
def editedBlocks : List HostBlockText := [{ aliasName := "web", text := "Host web\n  Port 22\n" }]

theorem planningSpace_row {time : Nat} {key : String} {row : LocalRecord}
    (held : (planningSpace time).records[key]? = some row) :
    key = recordKey .Host "web" ∧ row.record.kind = .Host ∧ row.record.id = "web" ∧
      row.record.version = 1 ∧ row.record.updatedAtMs = time := by
  simp only [planningSpace, BTreeMap.get?_insert] at held
  split at held
  · rename_i same
    cases held
    exact ⟨same.symm, rfl, rfl, rfl, rfl⟩
  · simp at held

theorem planningSpace_valid {time : Nat} (fits : time ≤ u64Max) : (planningSpace time).Valid where
  keyed := by
    intro key row held
    obtain ⟨rfl, kind, id, _⟩ := planningSpace_row held
    rw [kind, id]
  records := by
    intro key row held
    obtain ⟨_, _, _, version, stamp⟩ := planningSpace_row held
    rw [version, stamp]
    exact ⟨by decide, fits⟩
  pending := by
    intro alias_ pending held
    simp [planningSpace] at held
  declined := by
    intro alias_ declined held
    simp [planningSpace] at held

end Sample

/-- A cached host whose time is the largest one: the edit is stamped zero and loses to it. -/
theorem edit_after_the_last_timestamp :
    (Sample.planningSpace u64Max).Valid ∧ (Sample.editedBlocks.map (·.aliasName)).Nodup ∧
      ¬ PlansWell (Sample.planningSpace u64Max) Sample.editedBlocks "this" (fun _ => 5) := by
  refine ⟨Sample.planningSpace_valid le_rfl, by decide, fun well => ?_⟩
  let record : Record :=
    { kind := .Host, id := "web", version := 2, updatedAtMs := 0, deviceId := "this", deleted := false
      payload := hostPayload "Host web\n  Port 22\n" }
  have member : record ∈ plannedRecords (Sample.planningSpace u64Max) Sample.editedBlocks "this" (fun _ => 5) := by
    decide +kernel
  have replaces := (well.wins record member).cached _ (BTreeMap.get?_insert_self _ _ _)
  have later := time_le_of_beats replaces.beats
  exact absurd later (by decide)

theorem edit_with_room_to_count :
    RoomToCount (Sample.planningSpace 10) Sample.editedBlocks ∧
      PlansWell (Sample.planningSpace 10) Sample.editedBlocks "this" (fun _ => 5) := by
  have room : RoomToCount (Sample.planningSpace 10) Sample.editedBlocks := by
    intro alias_ _ version time known
    cases known with
    | cached held =>
      obtain ⟨_, _, _, count, stamp⟩ := Sample.planningSpace_row held
      rw [count, stamp]
      decide
    | pending held => simp [Sample.planningSpace] at held
    | declined held => simp [Sample.planningSpace] at held
  refine ⟨room, (planHosts_plans_well_iff (Sample.planningSpace_valid (by decide)) (by decide) ?_).mpr room⟩
  intro _
  show 5 ≤ u64Max
  decide

end Sshelter.Sync.V2
