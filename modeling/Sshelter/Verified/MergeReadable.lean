import Sshelter.Verified.MergeAccounting
import Sshelter.Verified.Hosts
import Sshelter.Sync.Groups.Edit

/-! # Admission and reading

A pulled record is admitted by `open_record` and `valid_public`; a cached record is
read back through `validate_cache` and the decoders.  Everything the reader asks
of a row is implied by admission, except that the version is not zero and that the
author is a device id.
-/

namespace Sshelter.Sync

/-- The ordering identity `validate_cache` asks for. -/
structure Record.Numbered (record : Record) : Prop where
  version : record.version ≠ 0
  device : isSlotId record.deviceId = true

/-- `next.spaces.insert(id, merged.section)`. -/
def SyncStateV3.withSpace (state : SyncStateV3) (spaceId : String) (space : SpaceStateV3) : SyncStateV3 :=
  { state with spaces := state.spaces.insert spaceId space }

variable {P : Primitives} {keys : ChainKeys}

/-! ## Admitted rows -/

theorem arrival_public_iff {account : Bool} {envelope : Envelope} {remote : Record} :
    arrival P keys account envelope = .Public remote ↔ openRecord P keys envelope = .ok remote ∧
      remote.kind.isSecret = false ∧ validPublic P keys remote account = true := by
  constructor
  · exact arrival_public
  · rintro ⟨opened, clear, valid⟩
    simp [arrival, opened, supported, clear, valid]

theorem accountRow_of_valid {remote : Record} (clear : remote.kind.isSecret = false)
    (valid : validPublic P keys remote true = true) :
    AccountRowReadable P (recordKey remote.kind remote.id) remote ↔ remote.Numbered := by
  constructor
  · intro readable
    exact ⟨readable.cached.version, readable.cached.device⟩
  · intro numbered
    refine ⟨⟨clear, rfl, numbered.version, numbered.device⟩, ?_, ?_⟩
    · intro kind
      simp [validPublic, kind] at valid
    · intro kind
      simp only [validPublic, kind, if_true, Bool.and_eq_true] at valid
      exact valid.1

/-- What reading asks of a row of a selected space. -/
def SpaceRowReadable (P : Primitives) (spaceId key : String) (record : Record) : Prop :=
  HostRowReadable P (.Space spaceId) key record ∧ GroupRowReadable (.Space spaceId) key record

theorem mergedRow_record (cached : Option LocalRecord) (remote : Record) (seq : Nat) :
    (mergedRow cached remote seq).record = remote ∧ merge cached remote ≠ .KeepLocal ∨
      ∃ row, cached = some row ∧ (mergedRow cached remote seq).record = row.record ∧
        merge cached remote = .KeepLocal := by
  cases cached with
  | none => exact .inl ⟨rfl, by simp⟩
  | some row =>
    by_cases keep : merge (some row) remote = .KeepLocal
    · exact .inr ⟨row, rfl, by simp [mergedRow, keep], keep⟩
    · exact .inl ⟨by simp [mergedRow, keep], keep⟩

/-- A merged row holds the cached revision, or an admitted one that wins over it. -/
theorem MergeRun.row_source {account : Bool} {start rows : MergeRows} {pulled : List Envelope}
    (run : MergeRun P keys account start pulled rows) {key : String} {row : LocalRecord}
    (held : rows.records[key]? = some row) :
    (∃ old, start.records[key]? = some old ∧ row.record = old.record) ∨
      ∃ envelope ∈ pulled, arrival P keys account envelope = .Public row.record ∧
        recordKey row.record.kind row.record.id = key ∧ merge start.records[key]? row.record ≠ .KeepLocal := by
  by_cases addressed : ∃ envelope ∈ pulled, ∃ remote,
      arrival P keys account envelope = .Public remote ∧ recordKey remote.kind remote.id = key
  · obtain ⟨envelope, member, remote, arrives, rfl⟩ := addressed
    have merged := run.publicRow envelope member remote arrives
    obtain rfl : mergedRow start.records[recordKey remote.kind remote.id]? remote envelope.seq = row :=
      Option.some.inj (merged.symm.trans held)
    rcases mergedRow_record start.records[recordKey remote.kind remote.id]? remote envelope.seq
      with ⟨same, wins⟩ | ⟨old, found, same, _⟩
    · refine .inr ⟨envelope, member, ?_⟩
      rw [same]
      exact ⟨arrives, rfl, wins⟩
    · exact .inl ⟨old, found, same⟩
  · rw [run.recordsFrame key] at held
    · exact .inl ⟨row, held, rfl⟩
    · intro envelope member remote arrives same
      exact addressed ⟨envelope, member, remote, arrives, same⟩

theorem readable_withSpace {state : SyncStateV3} {spaceId : String} {space space' : SpaceStateV3}
    (readable : Readable P state) (found : state.spaces[spaceId]? = some space) :
    Readable P (state.withSpace spaceId space') ↔
      (space'.selected = true → space'.missing = false → ∀ key row, space'.records[key]? = some row →
        SpaceRowReadable P spaceId key row.record) := by
  have here : (state.withSpace spaceId space').spaces[spaceId]? = some space' := by
    simp [SyncStateV3.withSpace]
  have elsewhere : ∀ id : String, spaceId ≠ id →
      (state.withSpace spaceId space').spaces[id]? = state.spaces[id]? := by
    intro id ne
    exact BTreeMap.get?_insert_ne _ _ ne
  have rowsHere : (state.withSpace spaceId space').spaceRecords spaceId = space'.records := by
    simp [SyncStateV3.spaceRecords, here]
  have rowsElsewhere : ∀ id : String, spaceId ≠ id →
      (state.withSpace spaceId space').spaceRecords id = state.spaceRecords id := by
    intro id ne
    simp [SyncStateV3.spaceRecords, elsewhere id ne]
  -- A scope other than the replaced one was readable before.
  have scopeBefore : ∀ id : String, spaceId ≠ id →
      .Space id ∈ readableScopes (state.withSpace spaceId space') → .Space id ∈ readableScopes state := by
    intro id ne member
    rw [mem_readableScopes_space] at member ⊢
    rwa [elsewhere id ne] at member
  constructor
  · intro after selected present key row held
    have member := mem_readableScopes_space.mpr ⟨space', here, selected, present⟩
    have rows : ((state.withSpace spaceId space').spaceRecords spaceId)[key]? = some row := by
      rwa [rowsHere]
    exact ⟨after.hosts _ member key row rows, after.groups _ member key row rows⟩
  · intro rows
    have replaced : ∀ key row, .Space spaceId ∈ readableScopes (state.withSpace spaceId space') →
        space'.records[key]? = some row → SpaceRowReadable P spaceId key row.record := by
      intro key row member held
      obtain ⟨other, found', selected, present⟩ := mem_readableScopes_space.mp member
      rw [here] at found'
      cases found'
      exact rows selected present key row held
    refine ⟨⟨readable.header.version, readable.header.device, ?_, readable.header.account, ?_⟩,
      readable.keys, readable.account, ?_, ?_⟩
    · intro none
      have empty := readable.header.joined none
      rw [BTreeMap.isEmpty_eq_false found] at empty
      cases empty
    · intro id other held
      by_cases same : spaceId = id
      · subst same
        exact readable.header.spaces spaceId space found
      · rw [elsewhere id same] at held
        exact readable.header.spaces id other held
    · intro scope member key row held
      cases scope with
      | «Local» => exact readable.hosts .Local List.mem_cons_self key row held
      | Space id =>
        by_cases same : spaceId = id
        · subst same
          exact (replaced key row member (by simpa [SyncStateV3.hostRecords, rowsHere] using held)).1
        · refine readable.hosts _ (scopeBefore id same member) key row ?_
          simpa [SyncStateV3.hostRecords, rowsElsewhere id same] using held
    · intro scope member key row held
      cases scope with
      | «Local» => exact readable.groups .Local List.mem_cons_self key row held
      | Space id =>
        by_cases same : spaceId = id
        · subst same
          exact (replaced key row member (by simpa [SyncStateV3.groupRows, rowsHere] using held)).2
        · refine readable.groups _ (scopeBefore id same member) key row ?_
          simpa [SyncStateV3.groupRows, rowsElsewhere id same] using held

/-! ## Both kinds of section -/

section
variable {state : SyncStateV3} {pulled : PullResponse} {since : Nat}

/-- The navigation record is only admitted with its numbering. -/
theorem numbered_of_groupOrder {remote : Record} (key : recordKey remote.kind remote.id = groupOrderKey)
    (valid : validPublic P keys remote true = true) : remote.Numbered := by
  obtain ⟨kind, id⟩ := recordKey_injective (show recordKey remote.kind remote.id = recordKey .Meta groupOrderId from key)
  simp only [validPublic, kind, id, if_true] at valid
  rw [if_neg (by decide)] at valid
  unfold GroupOrder.decode at valid
  split at valid
  · cases valid
  · rename_i wellFormed
    simp only [Bool.or_eq_true, beq_iff_eq, Bool.not_eq_true', not_or, Bool.not_eq_false] at wellFormed
    exact ⟨wellFormed.1.2, wellFormed.2⟩

theorem Admission.readable {start rows : MergeRows} (admission : Admission P keys start rows)
    (before : ∀ key row, start.records[key]? = some row → AccountRowReadable P key row.record) :
    ∀ key row, rows.records[key]? = some row → AccountRowReadable P key row.record := by
  cases admission with
  | none => exact before
  | kept => exact before
  | admitted row waits clean remote _ arrives key records =>
    obtain ⟨_, clear, valid⟩ := arrival_public arrives
    intro other held found
    by_cases same : groupOrderKey = other
    · subst same
      rw [records, BTreeMap.get?_insert_self] at found
      cases found
      rcases mergedRow_record start.records[groupOrderKey]? remote row.envelope.seq
        with ⟨taken, _⟩ | ⟨old, cached, kept, _⟩
      · rw [taken, ← key]
        exact (accountRow_of_valid clear valid).mpr (numbered_of_groupOrder key valid)
      · rw [kept]
        exact before _ _ cached
    · rw [records, BTreeMap.get?_insert_ne _ _ same] at found
      exact before other held found

end

end Sshelter.Sync
