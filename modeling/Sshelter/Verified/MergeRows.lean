import Sshelter.Verified.Opening

/-! # What merging a pull does to each row

One pulled row touches one cached record or one sealed envelope.  A pull lists
every identity once, so the state of a touched slot after the whole pull is the
state the single row left there, and every other slot is as it was.
-/

namespace Sshelter.Sync

variable {P : Primitives} {keys : ChainKeys} {account : Bool}

/-! ## Three kinds of arrival -/

/-- How a pulled row enters the section. -/
inductive Arrival where
  | Retained
  | Secret (record : Record)
  | Public (record : Record)

variable (P keys account) in
def arrival (envelope : Envelope) : Arrival :=
  match openRecord P keys envelope with
  | .error _ => .Retained
  | .ok record =>
    if !supported P keys record account then .Retained
    else if record.kind.isSecret then .Secret record
    else .Public record

theorem arrival_public {envelope : Envelope} {record : Record}
    (arrives : arrival P keys account envelope = .Public record) :
    openRecord P keys envelope = .ok record ∧ record.kind.isSecret = false ∧
      validPublic P keys record account = true := by
  unfold arrival at arrives
  split at arrives
  · cases arrives
  · rename_i opened
    split at arrives
    · cases arrives
    · rename_i admitted
      split at arrives
      · cases arrives
      · rename_i clear
        cases arrives
        have clear : record.kind.isSecret = false := by simpa using clear
        refine ⟨opened, clear, ?_⟩
        simpa [supported, clear] using admitted

theorem arrival_secret {envelope : Envelope} {record : Record}
    (arrives : arrival P keys account envelope = .Secret record) :
    openRecord P keys envelope = .ok record ∧ record.kind.isSecret = true ∧
      validSecret record = true ∧ account = true := by
  unfold arrival at arrives
  split at arrives
  · cases arrives
  · rename_i opened
    split at arrives
    · cases arrives
    · rename_i admitted
      split at arrives
      · rename_i hidden
        cases arrives
        have both : account = true ∧ validSecret record = true := by
          simpa [supported, hidden] using admitted
        exact ⟨opened, hidden, both.2, both.1⟩
      · cases arrives

/-- Something of the pulled row is left in the sealed slot: the row itself, a revision it
does not win over, or a row the relay stored later. -/
def Retains (P : Primitives) (keys : ChainKeys) (envelope : Envelope) (row : SealedRecord) : Prop :=
  row.envelope = envelope ∨
    (∃ old remote, openRecord P keys row.envelope = .ok old ∧
      openRecord P keys envelope = .ok remote ∧
      merge (some (headerView old row.envelope.seq row.dirty)) remote = .KeepLocal) ∨
    envelope.seq < row.envelope.seq

/-- The cached row after a supported public row arrived. -/
def mergedRow (cached : Option LocalRecord) (remote : Record) (seq : Nat) : LocalRecord :=
  match cached with
  | none => { record := remote, seq, dirty := false }
  | some row =>
    if merge (some row) remote = .KeepLocal then { row with seq := max row.seq seq }
    else { record := remote, seq, dirty := false }

/-- The sealed row after a supported secret row arrived. -/
def mergedSealed (P : Primitives) (keys : ChainKeys) (cached : Option SealedRecord)
    (envelope : Envelope) (remote : Record) : SealedRecord :=
  match cached with
  | none => { envelope, dirty := false, publicIdentity := none }
  | some row =>
    if merge (secretView P keys row) remote = .KeepLocal then
      { row with envelope := { row.envelope with seq := max row.envelope.seq envelope.seq } }
    else { envelope, dirty := false, publicIdentity := none }

/-! ## One pulled row -/

theorem mergeRow_public {rows rows' : MergeRows} {envelope : Envelope} {remote : Record}
    (arrives : arrival P keys account envelope = .Public remote)
    (merges : mergeRow P keys account rows envelope = .ok rows') :
    opaqueHolds P keys rows envelope remote = false ∧
      rows'.records = rows.records.insert (recordKey remote.kind remote.id)
        (mergedRow rows.records[recordKey remote.kind remote.id]? remote envelope.seq) ∧
      rows'.sealed = (if rows.sealed[envelope.wireKey]?.any (·.dirty) then rows.sealed
        else rows.sealed.erase envelope.wireKey) ∧
      rows'.conflicts = (if merge rows.records[recordKey remote.kind remote.id]? remote =
          .RemoteWinsOverDirtyLocal then rows.conflicts ++ [recordKey remote.kind remote.id]
        else rows.conflicts) := by
  obtain ⟨opened, clear, valid⟩ := arrival_public arrives
  have admitted : supported P keys remote account = true := by simp [supported, clear, valid]
  simp only [mergeRow, opened, admitted, clear, Bool.not_true, Bool.false_eq_true, if_false] at merges
  unfold mergePublic at merges
  split at merges
  · cases merges
  · rename_i free
    cases merges
    refine ⟨by simpa using free, ?_, rfl, rfl⟩
    cases cached : rows.records[recordKey remote.kind remote.id]? with
    | none => simp [mergedRow, merge]
    | some row =>
      by_cases keep : merge (some row) remote = .KeepLocal
      · simp [mergedRow, keep]
      · simp [mergedRow, keep]

theorem mergeRow_secret {rows rows' : MergeRows} {envelope : Envelope} {remote : Record}
    (arrives : arrival P keys account envelope = .Secret remote)
    (merges : mergeRow P keys account rows envelope = .ok rows') :
    rows'.records = rows.records ∧
      rows'.sealed = rows.sealed.insert envelope.wireKey
        (mergedSealed P keys rows.sealed[envelope.wireKey]? envelope remote) ∧
      rows'.conflicts = (if merge (rows.sealed[envelope.wireKey]?.bind (secretView P keys)) remote =
          .RemoteWinsOverDirtyLocal then rows.conflicts ++ [envelope.wireKey] else rows.conflicts) := by
  obtain ⟨opened, hidden, valid, rfl⟩ := arrival_secret arrives
  have admitted : supported P keys remote true = true := by simp [supported, hidden, valid]
  simp only [mergeRow, opened, admitted, hidden, Bool.not_true, Bool.false_eq_true, if_false, if_true]
    at merges
  cases merges
  refine ⟨rfl, ?_, rfl⟩
  unfold mergeSecret
  simp only [show sealedKey envelope.kind envelope.idHash = envelope.wireKey from rfl]
  split
  · rename_i keep
    cases cached : rows.sealed[envelope.wireKey]? with
    | none => simp [cached, merge] at keep
    | some row =>
      rw [cached, Option.bind_some] at keep
      simp [mergedSealed, keep]
  · rename_i replace
    cases cached : rows.sealed[envelope.wireKey]? with
    | none => simp [mergedSealed]
    | some row =>
      rw [cached, Option.bind_some] at replace
      simp [mergedSealed, replace]

theorem retainOpaque_spec {sealed sealed' : BTreeMap SealedRecord} {envelope : Envelope}
    (retained : retainOpaque P keys sealed envelope account = some sealed') :
    ∃ row, sealed' = sealed.insert envelope.wireKey row ∧ Retains P keys envelope row ∧
      envelope.seq ≤ row.envelope.seq ∧
      (row.envelope = envelope ∧
          (∀ old, sealed[envelope.wireKey]? = some old → old.envelope.seq ≤ envelope.seq) ∨
        ∃ old, sealed[envelope.wireKey]? = some old ∧ sameCiphertext old.envelope row.envelope = true ∧
          (row.envelope = old.envelope ∨ ∃ remote, openRecord P keys envelope = .ok remote)) ∧
      ∀ old, sealed[envelope.wireKey]? = some old → old.dirty = true →
        sameCiphertext old.envelope envelope = true := by
  unfold retainOpaque at retained
  rw [show sealedKey envelope.kind envelope.idHash = envelope.wireKey from rfl] at retained
  cases cached : sealed[envelope.wireKey]? with
  | none =>
    simp only [cached, Option.some.injEq] at retained
    exact ⟨_, retained.symm, .inl rfl, le_refl _, .inl ⟨rfl, by simp⟩, by simp⟩
  | some old =>
    simp only [cached] at retained
    split at retained
    · cases retained
    · rename_i unblocked
      have same : ∀ other, some old = some other → other.dirty = true →
          sameCiphertext other.envelope envelope = true := by
        intro other found dirty
        cases found
        simpa [dirty] using unblocked
      split at retained
      · -- the retained revision does not lose, so only its sequence number follows the pull
        rename_i kept
        unfold retainedKept at kept
        split at kept
        · rename_i record remote openedOld openedRemote
          refine ⟨_, (Option.some.inj retained).symm,
            .inr (.inl ⟨record, remote, openedOld, openedRemote, ?_⟩), le_max_right _ _,
            .inr ⟨old, rfl, sameCiphertext_iff.mpr rfl, .inr ⟨remote, openedRemote⟩⟩, same⟩
          rw [beq_iff_eq, merge_keepLocal_iff] at kept
          exact merge_keepLocal_iff.mpr kept
        · cases kept
      · split at retained
        · -- neither can be compared, so the later sequence number stays
          rename_i later
          exact ⟨_, (Option.some.inj retained).symm, .inr (.inr later), le_of_lt later,
            .inr ⟨old, rfl, sameCiphertext_iff.mpr rfl, .inl rfl⟩, same⟩
        · rename_i notLater
          refine ⟨_, (Option.some.inj retained).symm, .inl rfl, le_refl _, .inl ⟨rfl, ?_⟩, same⟩
          intro other found
          cases found
          exact Nat.le_of_not_lt notLater

theorem mergeRow_retained {rows rows' : MergeRows} {envelope : Envelope}
    (arrives : arrival P keys account envelope = .Retained)
    (merges : mergeRow P keys account rows envelope = .ok rows') :
    rows'.records = rows.records ∧ rows'.conflicts = rows.conflicts ∧
      retainOpaque P keys rows.sealed envelope account = some rows'.sealed := by
  have reduced : ∃ code, mergeOpaque P keys rows envelope account code = .ok rows' := by
    unfold mergeRow at merges
    unfold arrival at arrives
    split at merges
    · exact ⟨_, merges⟩
    · rename_i record opened
      rw [opened] at arrives
      simp only at arrives
      split at merges
      · exact ⟨_, merges⟩
      · rename_i admitted
        rw [if_neg admitted] at arrives
        split at arrives <;> cases arrives
  obtain ⟨code, merges⟩ := reduced
  unfold mergeOpaque at merges
  cases retained : retainOpaque P keys rows.sealed envelope account with
  | none => simp [retained] at merges
  | some sealed =>
    simp only [retained] at merges
    cases merges
    exact ⟨rfl, rfl, rfl⟩

/-! ## A whole pull -/

/-- A dirty cached record gave way to another revision. -/
def ReplacedRecord (before after : BTreeMap LocalRecord) (key : String) : Prop :=
  ∃ old new, before[key]? = some old ∧ old.dirty = true ∧ after[key]? = some new ∧
    new.record ≠ old.record

/-- A dirty sealed row that the keys can open gave way to another ciphertext. -/
def ReplacedSealed (P : Primitives) (keys : ChainKeys) (before after : BTreeMap SealedRecord)
    (key : String) : Prop :=
  ∃ old record new, before[key]? = some old ∧ old.dirty = true ∧
    openRecord P keys old.envelope = .ok record ∧ after[key]? = some new ∧
    sameCiphertext old.envelope new.envelope = false

/-- Lookups decide whether a record was replaced. -/
theorem replacedRecord_congr {before after after' : BTreeMap LocalRecord} {key : String}
    (same : after'[key]? = after[key]?) :
    ReplacedRecord before after' key ↔ ReplacedRecord before after key := by
  unfold ReplacedRecord
  rw [same]

theorem replacedSealed_congr {before after after' : BTreeMap SealedRecord} {key : String}
    (same : after'[key]? = after[key]?) :
    ReplacedSealed P keys before after' key ↔ ReplacedSealed P keys before after key := by
  unfold ReplacedSealed
  rw [same]

theorem not_replacedRecord_of_eq {before after : BTreeMap LocalRecord} {key : String}
    (same : after[key]? = before[key]?) : ¬ ReplacedRecord before after key := by
  rintro ⟨old, new, found, _, found', differs⟩
  rw [same, found] at found'
  cases found'
  exact differs rfl

theorem not_replacedSealed_of_same {before after : BTreeMap SealedRecord} {key : String}
    (same : ∀ old record, before[key]? = some old → old.dirty = true →
      openRecord P keys old.envelope = .ok record →
      ∀ new, after[key]? = some new → sameCiphertext old.envelope new.envelope = true) :
    ¬ ReplacedSealed P keys before after key := by
  rintro ⟨old, record, new, found, dirty, opened, found', differs⟩
  rw [same old record found dirty opened new found'] at differs
  cases differs

theorem not_replacedSealed_of_eq {before after : BTreeMap SealedRecord} {key : String}
    (same : after[key]? = before[key]?) : ¬ ReplacedSealed P keys before after key := by
  refine not_replacedSealed_of_same fun old record found _ _ new found' => ?_
  rw [same, found] at found'
  cases found'
  exact sameCiphertext_iff.mpr rfl

/-- The key a row lists among the conflicts when it replaces unsent work. -/
def ListedBy (P : Primitives) (keys : ChainKeys) (account : Bool) (row : Envelope) (key : String) :
    Prop :=
  ∃ remote, arrival P keys account row = .Public remote ∧ recordKey remote.kind remote.id = key ∨
    arrival P keys account row = .Secret remote ∧ row.wireKey = key

/-- The section after the rows `done` of a pull, relative to the section before it. -/
structure MergeRun (P : Primitives) (keys : ChainKeys) (account : Bool) (start : MergeRows)
    (done : List Envelope) (rows : MergeRows) : Prop where
  publicRow : ∀ row ∈ done, ∀ remote, arrival P keys account row = .Public remote →
    rows.records[recordKey remote.kind remote.id]? =
      some (mergedRow start.records[recordKey remote.kind remote.id]? remote row.seq)
  secretRow : ∀ row ∈ done, ∀ remote, arrival P keys account row = .Secret remote →
    rows.sealed[row.wireKey]? = some (mergedSealed P keys start.sealed[row.wireKey]? row remote)
  retainedRow : ∀ row ∈ done, arrival P keys account row = .Retained →
    ∃ kept, rows.sealed[row.wireKey]? = some kept ∧ Retains P keys row kept
  recordsFrame : ∀ key : String, (∀ row ∈ done, ∀ remote, arrival P keys account row = .Public remote →
    recordKey remote.kind remote.id ≠ key) → rows.records[key]? = start.records[key]?
  sealedFrame : ∀ key : String, (∀ row ∈ done, row.wireKey ≠ key) → rows.sealed[key]? = start.sealed[key]?
  /-- A slot that held an unsent, readable secret was only touched by a readable row. -/
  dirtySlot : ∀ row ∈ done, ∀ old record, start.sealed[row.wireKey]? = some old → old.dirty = true →
    openRecord P keys old.envelope = .ok record → ∃ remote, openRecord P keys row = .ok remote
  sealedSource : ∀ key, ReplacedSealed P keys start.sealed rows.sealed key →
    ∃ row ∈ done, ∃ remote, arrival P keys account row = .Secret remote ∧ row.wireKey = key
  conflicts : ∃ extra : List String, rows.conflicts = start.conflicts ++ extra ∧ extra.Nodup ∧
    (∀ key ∈ extra, ∃ row ∈ done, ListedBy P keys account row key) ∧
    ∀ key, key ∈ extra ↔ ReplacedRecord start.records rows.records key ∨
      ReplacedSealed P keys start.sealed rows.sealed key

theorem MergeRun.initial (start : MergeRows) : MergeRun P keys account start [] start where
  publicRow := by simp
  secretRow := by simp
  retainedRow := by simp
  recordsFrame := fun _ _ => rfl
  sealedFrame := fun _ _ => rfl
  dirtySlot := by simp
  sealedSource := fun key replaced => absurd replaced (not_replacedSealed_of_eq rfl)
  conflicts := by
    refine ⟨[], by simp, List.nodup_nil, by simp, fun key => ?_⟩
    simp [not_replacedRecord_of_eq, not_replacedSealed_of_eq]

section Step

variable {start rows rows' : MergeRows} {done : List Envelope} {envelope : Envelope}

variable (account) in
/-- No handled row is about the record a fresh public row carries. -/
theorem untouched_record {remote : Record}
    (fresh : ∀ row ∈ done, row.identity ≠ envelope.identity)
    (opened : openRecord P keys envelope = .ok remote) :
    ∀ row ∈ done, ∀ other, arrival P keys account row = .Public other →
      recordKey other.kind other.id ≠ recordKey remote.kind remote.id := by
  intro row member other arrives same
  exact fresh row member (identity_of_recordKey (arrival_public arrives).1 opened same)

/-- No handled row shares the wire key of a fresh readable row. -/
theorem untouched_sealed (hex : P.HexHashes) {remote : Record}
    (fresh : ∀ row ∈ done, row.identity ≠ envelope.identity)
    (opened : openRecord P keys envelope = .ok remote) :
    ∀ row ∈ done, row.wireKey ≠ envelope.wireKey := by
  intro row member same
  exact fresh row member (identity_of_wireKey hex opened same)

/-- A public row's cache key is no secret row's wire key. -/
theorem wireKey_ne_recordKey {row : Envelope} {secret : Record} {kind : RecordKind} {id : String}
    (arrives : arrival P keys account row = .Secret secret) (clear : kind.isSecret = false) :
    row.wireKey ≠ recordKey kind id := by
  intro same
  obtain ⟨opened, hidden, _⟩ := arrival_secret arrives
  obtain ⟨wireKind, _, _⟩ := openRecord_ok opened
  have free : ':' ∉ row.kind.toList := by rw [wireKind]; exact secret.kind.colon_not_mem_asStr
  obtain ⟨kinds, _⟩ := join_injective free kind.colon_not_mem_asStr same
  rw [wireKind] at kinds
  rw [RecordKind.asStr_injective kinds, clear] at hidden
  cases hidden

theorem MergeRun.conflictsStep (run : MergeRun P keys account start done rows) (listed : List String)
    (appended : rows'.conflicts = rows.conflicts ++ listed) (single : listed.Nodup)
    (source : ∀ key ∈ listed, ListedBy P keys account envelope key)
    (fresh : ∀ key ∈ listed, ∀ row ∈ done, ¬ ListedBy P keys account row key)
    (replaced : ∀ key, (ReplacedRecord start.records rows'.records key ∨
        ReplacedSealed P keys start.sealed rows'.sealed key) ↔
      (ReplacedRecord start.records rows.records key ∨
        ReplacedSealed P keys start.sealed rows.sealed key) ∨ key ∈ listed) :
    ∃ extra : List String, rows'.conflicts = start.conflicts ++ extra ∧ extra.Nodup ∧
      (∀ key ∈ extra, ∃ row ∈ done ++ [envelope], ListedBy P keys account row key) ∧
      ∀ key, key ∈ extra ↔ ReplacedRecord start.records rows'.records key ∨
        ReplacedSealed P keys start.sealed rows'.sealed key := by
  obtain ⟨extra, split, nodup, sources, iff⟩ := run.conflicts
  refine ⟨extra ++ listed, by rw [appended, split, List.append_assoc], ?_, ?_, ?_⟩
  · refine List.nodup_append.mpr ⟨nodup, single, ?_⟩
    rintro key member _ member' rfl
    obtain ⟨row, handled, by_row⟩ := sources key member
    exact fresh key member' row handled by_row
  · intro key member
    rcases List.mem_append.mp member with member | member
    · obtain ⟨row, handled, by_row⟩ := sources key member
      exact ⟨row, List.mem_append_left _ handled, by_row⟩
    · exact ⟨envelope, by simp, source key member⟩
  · intro key
    rw [List.mem_append, iff, replaced]

theorem mergedRow_record_ne {old : LocalRecord} {remote : Record} {seq : Nat} :
    (mergedRow (some old) remote seq).record ≠ old.record ↔ old.record.stamp < remote.stamp := by
  rw [← merge_ne_keepLocal_iff, mergedRow]
  split
  · rename_i keep
    simp [keep]
  · rename_i wins
    refine ⟨fun _ => wins, fun _ same => wins ?_⟩
    rw [merge_keepLocal_iff]
    exact le_of_eq (congrArg Record.stamp same)

/-- A public row is listed exactly when it replaces an unsent revision. -/
theorem replacedRecord_mergedRow {before after : BTreeMap LocalRecord} {key : String} {remote : Record}
    {seq : Nat} (found : after[key]? = some (mergedRow before[key]? remote seq)) :
    ReplacedRecord before after key ↔ merge before[key]? remote = .RemoteWinsOverDirtyLocal := by
  rw [merge_conflict_iff]
  constructor
  · rintro ⟨old, new, cached, dirty, found', differs⟩
    rw [found, cached] at found'
    cases found'
    exact ⟨old, cached, dirty, mergedRow_record_ne.mp differs⟩
  · rintro ⟨old, cached, dirty, wins⟩
    refine ⟨old, _, cached, dirty, found, ?_⟩
    rw [cached]
    exact mergedRow_record_ne.mpr wins

theorem MergeRun.publicStep (hex : P.HexHashes) {remote : Record}
    (run : MergeRun P keys account start done rows)
    (fresh : ∀ row ∈ done, row.identity ≠ envelope.identity)
    (arrives : arrival P keys account envelope = .Public remote)
    (merges : mergeRow P keys account rows envelope = .ok rows') :
    MergeRun P keys account start (done ++ [envelope]) rows' := by
  obtain ⟨opened, clear, _⟩ := arrival_public arrives
  obtain ⟨_, records, sealed, conflicts⟩ := mergeRow_public arrives merges
  have freshRecord := untouched_record account fresh opened
  have freshSealed := untouched_sealed hex fresh opened
  have cached := run.recordsFrame _ freshRecord
  have slot := run.sealedFrame _ freshSealed
  have otherRecords : ∀ key : String, recordKey remote.kind remote.id ≠ key →
      rows'.records[key]? = rows.records[key]? := by
    intro key ne
    rw [records, BTreeMap.get?_insert_ne _ _ ne]
  have otherSealed : ∀ key : String, envelope.wireKey ≠ key →
      rows'.sealed[key]? = rows.sealed[key]? := by
    intro key ne
    rw [sealed]
    split
    · rfl
    · exact BTreeMap.get?_erase_ne _ ne
  have merged : rows'.records[recordKey remote.kind remote.id]? =
      some (mergedRow start.records[recordKey remote.kind remote.id]? remote envelope.seq) := by
    rw [records, BTreeMap.get?_insert_self, cached]
  -- An unsent sealed row of the slot stays in place.
  have sealedSame : ∀ key, ReplacedSealed P keys start.sealed rows'.sealed key ↔
      ReplacedSealed P keys start.sealed rows.sealed key := by
    intro key
    by_cases here : envelope.wireKey = key
    · subst here
      refine iff_of_false (not_replacedSealed_of_same ?_) (not_replacedSealed_of_eq slot)
      intro old record found dirty _ new found'
      rw [sealed, slot, found] at found'
      simp only [Option.any_some, dirty, if_true] at found'
      rw [slot, found] at found'
      cases found'
      exact sameCiphertext_iff.mpr rfl
    · exact replacedSealed_congr (otherSealed key here)
  refine ⟨?_, ?_, ?_, ?_, ?_, ?_, ?_, ?_⟩
  · intro row member other arrives'
    rcases List.mem_append.mp member with member | member
    · rw [otherRecords _ (freshRecord row member other arrives').symm]
      exact run.publicRow row member other arrives'
    · obtain rfl := List.mem_singleton.mp member
      rw [arrives] at arrives'
      cases arrives'
      exact merged
  · intro row member other arrives'
    rcases List.mem_append.mp member with member | member
    · rw [otherSealed _ (freshSealed row member).symm]
      exact run.secretRow row member other arrives'
    · obtain rfl := List.mem_singleton.mp member
      rw [arrives] at arrives'
      cases arrives'
  · intro row member arrives'
    rcases List.mem_append.mp member with member | member
    · rw [otherSealed _ (freshSealed row member).symm]
      exact run.retainedRow row member arrives'
    · obtain rfl := List.mem_singleton.mp member
      rw [arrives] at arrives'
      cases arrives'
  · intro key untouched
    rw [otherRecords key (untouched envelope (by simp) remote arrives)]
    exact run.recordsFrame key fun row member => untouched row (List.mem_append_left _ member)
  · intro key untouched
    rw [otherSealed key (untouched envelope (by simp))]
    exact run.sealedFrame key fun row member => untouched row (List.mem_append_left _ member)
  · intro row member old record found dirty opened'
    rcases List.mem_append.mp member with member | member
    · exact run.dirtySlot row member old record found dirty opened'
    · obtain rfl := List.mem_singleton.mp member
      exact ⟨remote, opened⟩
  · intro key replaced
    obtain ⟨row, member, source⟩ := run.sealedSource key ((sealedSame key).mp replaced)
    exact ⟨row, List.mem_append_left _ member, source⟩
  · -- The row may be listed itself.
    have recordIff : ∀ key, ReplacedRecord start.records rows'.records key ↔
        ReplacedRecord start.records rows.records key ∨ (recordKey remote.kind remote.id = key ∧
          merge start.records[recordKey remote.kind remote.id]? remote = .RemoteWinsOverDirtyLocal) := by
      intro key
      by_cases here : recordKey remote.kind remote.id = key
      · subst here
        rw [replacedRecord_mergedRow merged]
        simp only [true_and]
        refine ⟨.inr, fun either => either.resolve_left ?_⟩
        exact not_replacedRecord_of_eq cached
      · rw [replacedRecord_congr (otherRecords key here)]
        simp [here]
    rw [cached] at conflicts
    refine run.conflictsStep
      (if merge start.records[recordKey remote.kind remote.id]? remote = .RemoteWinsOverDirtyLocal then
        [recordKey remote.kind remote.id] else []) ?_ ?_ ?_ ?_ ?_
    · rw [conflicts]
      split <;> simp
    · split <;> simp
    · intro key member
      split at member
      · rw [List.mem_singleton] at member
        exact ⟨remote, .inl ⟨arrives, member.symm⟩⟩
      · cases member
    · rintro key member row handled ⟨other, ⟨arrives', same⟩ | ⟨arrives', same⟩⟩
      · split at member
        · rw [List.mem_singleton] at member
          exact freshRecord row handled other arrives' (same.trans member)
        · cases member
      · split at member
        · rw [List.mem_singleton] at member
          exact wireKey_ne_recordKey arrives' clear (same.trans member)
        · cases member
    · intro key
      rw [recordIff, sealedSame]
      constructor
      · rintro ((old | ⟨same, wins⟩) | old)
        · exact .inl (.inl old)
        · exact .inr (by rw [if_pos wins]; exact List.mem_singleton.mpr same.symm)
        · exact .inl (.inr old)
      · rintro ((old | old) | member)
        · exact .inl (.inl old)
        · exact .inr old
        · split at member
          · rename_i wins
            rw [List.mem_singleton] at member
            exact .inl (.inr ⟨member.symm, wins⟩)
          · cases member

theorem secretView_of_open {row : SealedRecord} {record : Record}
    (opened : openRecord P keys row.envelope = .ok record) :
    secretView P keys row = some (headerView record row.envelope.seq row.dirty) := by
  simp [secretView, opened]

/-- A secret row is listed exactly when it replaces an unsent revision the keys can open. -/
theorem replacedSealed_mergedSealed {before after : BTreeMap SealedRecord} {key : String}
    {envelope : Envelope} {remote : Record} (opened : openRecord P keys envelope = .ok remote)
    (found : after[key]? = some (mergedSealed P keys before[key]? envelope remote)) :
    ReplacedSealed P keys before after key ↔
      merge (before[key]?.bind (secretView P keys)) remote = .RemoteWinsOverDirtyLocal := by
  constructor
  · rintro ⟨old, record, new, cached, dirty, openedOld, found', differs⟩
    rw [found, cached] at found'
    rw [cached, Option.bind_some, secretView_of_open openedOld, merge_conflict_iff]
    refine ⟨_, rfl, dirty, ?_⟩
    rw [← merge_ne_keepLocal_iff]
    intro keep
    simp only [mergedSealed, secretView_of_open openedOld, keep, if_true, Option.some.injEq] at found'
    subst found'
    rw [sameCiphertext_iff.mpr rfl] at differs
    cases differs
  · intro conflict
    obtain ⟨view, bound, dirty, wins⟩ := merge_conflict_iff.mp conflict
    obtain ⟨old, cached, viewed⟩ := Option.bind_eq_some_iff.mp bound
    cases openedOld : openRecord P keys old.envelope with
    | error code => simp [secretView, openedOld] at viewed
    | ok record =>
      rw [secretView_of_open openedOld] at viewed
      cases viewed
      have replaced : mergedSealed P keys before[key]? envelope remote =
          { envelope, dirty := false, publicIdentity := none } := by
        have notKept := merge_ne_keepLocal_iff.mpr wins
        rw [cached]
        simp only [mergedSealed, secretView_of_open openedOld, if_neg notKept]
      rw [replaced] at found
      refine ⟨old, record, _, cached, dirty, openedOld, found, ?_⟩
      -- Equal ciphertexts would open to the same revision.
      rw [Bool.eq_false_iff]
      intro same
      rw [openRecord_of_sameCiphertext same, openedOld] at opened
      cases opened
      exact lt_irrefl _ wins

theorem MergeRun.secretStep (hex : P.HexHashes) {remote : Record}
    (run : MergeRun P keys account start done rows)
    (fresh : ∀ row ∈ done, row.identity ≠ envelope.identity)
    (arrives : arrival P keys account envelope = .Secret remote)
    (merges : mergeRow P keys account rows envelope = .ok rows') :
    MergeRun P keys account start (done ++ [envelope]) rows' := by
  obtain ⟨opened, hidden, _⟩ := arrival_secret arrives
  obtain ⟨records, sealed, conflicts⟩ := mergeRow_secret arrives merges
  -- no earlier row of the pull wrote this slot, so it still holds what the section began with
  have freshSealed := untouched_sealed hex fresh opened
  have slot := run.sealedFrame _ freshSealed
  have otherSealed : ∀ key : String, envelope.wireKey ≠ key →
      rows'.sealed[key]? = rows.sealed[key]? := by
    intro key ne
    rw [sealed, BTreeMap.get?_insert_ne _ _ ne]
  have merged : rows'.sealed[envelope.wireKey]? =
      some (mergedSealed P keys start.sealed[envelope.wireKey]? envelope remote) := by
    rw [sealed, BTreeMap.get?_insert_self, slot]
  have sealedIff : ∀ key, ReplacedSealed P keys start.sealed rows'.sealed key ↔
      ReplacedSealed P keys start.sealed rows.sealed key ∨ (envelope.wireKey = key ∧
        merge (start.sealed[envelope.wireKey]?.bind (secretView P keys)) remote =
          .RemoteWinsOverDirtyLocal) := by
    intro key
    by_cases here : envelope.wireKey = key
    · subst here
      rw [replacedSealed_mergedSealed opened merged]
      simp only [true_and]
      exact ⟨.inr, fun either => either.resolve_left (not_replacedSealed_of_eq slot)⟩
    · rw [replacedSealed_congr (otherSealed key here)]
      simp [here]
  -- the slot apart, every field is the one of the run so far
  refine ⟨?_, ?_, ?_, ?_, ?_, ?_, ?_, ?_⟩
  · intro row member other arrives'
    rcases List.mem_append.mp member with member | member
    · rw [records]
      exact run.publicRow row member other arrives'
    · obtain rfl := List.mem_singleton.mp member
      rw [arrives] at arrives'
      cases arrives'
  · intro row member other arrives'
    rcases List.mem_append.mp member with member | member
    · rw [otherSealed _ (freshSealed row member).symm]
      exact run.secretRow row member other arrives'
    · obtain rfl := List.mem_singleton.mp member
      rw [arrives] at arrives'
      cases arrives'
      exact merged
  · intro row member arrives'
    rcases List.mem_append.mp member with member | member
    · rw [otherSealed _ (freshSealed row member).symm]
      exact run.retainedRow row member arrives'
    · obtain rfl := List.mem_singleton.mp member
      rw [arrives] at arrives'
      cases arrives'
  · intro key untouched
    rw [records]
    exact run.recordsFrame key fun row member => untouched row (List.mem_append_left _ member)
  · intro key untouched
    rw [otherSealed key (untouched envelope (by simp))]
    exact run.sealedFrame key fun row member => untouched row (List.mem_append_left _ member)
  · intro row member old record found dirty opened'
    rcases List.mem_append.mp member with member | member
    · exact run.dirtySlot row member old record found dirty opened'
    · obtain rfl := List.mem_singleton.mp member
      exact ⟨remote, opened⟩
  · intro key replaced
    rcases (sealedIff key).mp replaced with replaced | ⟨same, _⟩
    · obtain ⟨row, member, source⟩ := run.sealedSource key replaced
      exact ⟨row, List.mem_append_left _ member, source⟩
    · exact ⟨envelope, by simp, remote, arrives, same⟩
  · -- the row lists its own slot, and only when it took an unsent secret's place
    rw [slot] at conflicts
    refine run.conflictsStep
      (if merge (start.sealed[envelope.wireKey]?.bind (secretView P keys)) remote =
        .RemoteWinsOverDirtyLocal then [envelope.wireKey] else []) ?_ ?_ ?_ ?_ ?_
    · rw [conflicts]
      split <;> simp
    · split <;> simp
    · intro key member
      split at member
      · rw [List.mem_singleton] at member
        exact ⟨remote, .inr ⟨arrives, member.symm⟩⟩
      · cases member
    · rintro key member row handled ⟨other, ⟨arrives', same⟩ | ⟨arrives', same⟩⟩
      · split at member
        · rw [List.mem_singleton] at member
          exact wireKey_ne_recordKey arrives (arrival_public arrives').2.1 (member.symm.trans same.symm)
        · cases member
      · split at member
        · rw [List.mem_singleton] at member
          exact freshSealed row handled (same.trans member)
        · cases member
    · intro key
      rw [sealedIff, records]
      constructor
      · rintro (old | old | ⟨same, wins⟩)
        · exact .inl (.inl old)
        · exact .inl (.inr old)
        · exact .inr (by rw [if_pos wins]; exact List.mem_singleton.mpr same.symm)
      · rintro ((old | old) | member)
        · exact .inl old
        · exact .inr (.inl old)
        · split at member
          · rename_i wins
            rw [List.mem_singleton] at member
            exact .inr (.inr ⟨member.symm, wins⟩)
          · cases member

theorem MergeRun.retainedStep (hex : P.HexHashes) (run : MergeRun P keys account start done rows)
    (fresh : ∀ row ∈ done, row.identity ≠ envelope.identity)
    (distinct : ∀ row ∈ done, row.seq ≠ envelope.seq)
    (arrives : arrival P keys account envelope = .Retained)
    (merges : mergeRow P keys account rows envelope = .ok rows') :
    MergeRun P keys account start (done ++ [envelope]) rows' := by
  obtain ⟨records, conflicts, retained⟩ := mergeRow_retained arrives merges
  obtain ⟨kept, sealed, retains, newest, origin, blocked⟩ := retainOpaque_spec retained
  have otherSealed : ∀ key : String, envelope.wireKey ≠ key →
      rows'.sealed[key]? = rows.sealed[key]? := by
    intro key ne
    rw [sealed, BTreeMap.get?_insert_ne _ _ ne]
  have here : rows'.sealed[envelope.wireKey]? = some kept := by
    rw [sealed, BTreeMap.get?_insert_self]
  -- A row handled before can share the wire key only when neither opens.
  have collides : ∀ row ∈ done, row.wireKey = envelope.wireKey →
      ∀ record, openRecord P keys row ≠ .ok record := by
    intro row member same record opened
    exact fresh row member (identity_of_wireKey hex opened same.symm).symm
  -- So a slot with an unsent readable secret was not touched before.
  have slot : ∀ old record, start.sealed[envelope.wireKey]? = some old → old.dirty = true →
      openRecord P keys old.envelope = .ok record →
      rows.sealed[envelope.wireKey]? = start.sealed[envelope.wireKey]? := by
    intro old record found dirty opened
    refine run.sealedFrame _ fun row member same => ?_
    obtain ⟨remote, openedRow⟩ := run.dirtySlot row member old record (by rw [same]; exact found) dirty opened
    exact collides row member same remote openedRow
  have sealedSame : ∀ key, ReplacedSealed P keys start.sealed rows'.sealed key ↔
      ReplacedSealed P keys start.sealed rows.sealed key := by
    intro key
    by_cases at_key : envelope.wireKey = key
    · subst at_key
      refine iff_of_false ?_ ?_
      · refine not_replacedSealed_of_same fun old record found dirty opened new found' => ?_
        have current := (slot old record found dirty opened).trans found
        rw [here] at found'
        cases found'
        rcases origin with ⟨replaced, _⟩ | ⟨other, cached, ciphertext, _⟩
        · rw [replaced]
          exact blocked old current dirty
        · rw [current] at cached
          cases cached
          exact ciphertext
      · refine not_replacedSealed_of_same fun old record found dirty opened new found' => ?_
        rw [slot old record found dirty opened, found] at found'
        cases found'
        exact sameCiphertext_iff.mpr rfl
    · exact replacedSealed_congr (otherSealed key at_key)
  refine ⟨?_, ?_, ?_, ?_, ?_, ?_, ?_, ?_⟩
  · intro row member other arrives'
    rcases List.mem_append.mp member with member | member
    · rw [records]
      exact run.publicRow row member other arrives'
    · obtain rfl := List.mem_singleton.mp member
      rw [arrives] at arrives'
      cases arrives'
  · intro row member other arrives'
    rcases List.mem_append.mp member with member | member
    · rw [otherSealed _ fun same => collides row member same.symm other (arrival_secret arrives').1]
      exact run.secretRow row member other arrives'
    · obtain rfl := List.mem_singleton.mp member
      rw [arrives] at arrives'
      cases arrives'
  · intro row member arrives'
    rcases List.mem_append.mp member with member | member
    · by_cases same : envelope.wireKey = row.wireKey
      · obtain ⟨current, found, holds⟩ := run.retainedRow row member arrives'
        refine ⟨kept, by rw [← same]; exact here, ?_⟩
        have closed := collides row member same.symm
        have upTo : current.envelope = row ∨ row.seq < current.envelope.seq := by
          rcases holds with same | ⟨_, remote, _, opened, _⟩ | later
          · exact .inl same
          · exact absurd opened (closed remote)
          · exact .inr later
        have currentHere : rows.sealed[envelope.wireKey]? = some current := by rw [same]; exact found
        rcases origin with ⟨replaced, notLater⟩ | ⟨old, cached, _, untouched | ⟨remote, opened⟩⟩
        · -- The row that took over the shared slot was stored later.
          have order := notLater current currentHere
          have apart := distinct row member
          rw [Retains, replaced]
          rcases upTo with rfl | later
          · exact .inr (.inr (lt_of_le_of_ne order apart))
          · exact .inr (.inr (lt_of_lt_of_le later order))
        · rw [currentHere] at cached
          cases cached
          rw [Retains, untouched]
          exact upTo.imp_right .inr
        · exact absurd (identity_of_wireKey hex opened same.symm) (fresh row member)
      · rw [otherSealed _ same]
        exact run.retainedRow row member arrives'
    · obtain rfl := List.mem_singleton.mp member
      exact ⟨kept, here, retains⟩
  · intro key untouched
    rw [records]
    exact run.recordsFrame key fun row member => untouched row (List.mem_append_left _ member)
  · intro key untouched
    rw [otherSealed key (untouched envelope (by simp))]
    exact run.sealedFrame key fun row member => untouched row (List.mem_append_left _ member)
  · intro row member old record found dirty opened
    rcases List.mem_append.mp member with member | member
    · exact run.dirtySlot row member old record found dirty opened
    · obtain rfl := List.mem_singleton.mp member
      have same := blocked old ((slot old record found dirty opened).trans found) dirty
      exact ⟨record, (openRecord_of_sameCiphertext same).trans opened⟩
  · intro key replaced
    obtain ⟨row, member, source⟩ := run.sealedSource key ((sealedSame key).mp replaced)
    exact ⟨row, List.mem_append_left _ member, source⟩
  · refine run.conflictsStep [] (by rw [conflicts, List.append_nil]) List.nodup_nil (by simp) (by simp) ?_
    intro key
    rw [records, sealedSame]
    simp

end Step

/-- A pull that lists every identity and every sequence number once. -/
theorem mergeRows_run (hex : P.HexHashes) {start rows : MergeRows} {pulled : List Envelope}
    (identities : (pulled.map Envelope.identity).Nodup) (sequences : (pulled.map (·.seq)).Nodup)
    (merges : mergeRows P keys account start pulled = .ok rows) :
    MergeRun P keys account start pulled rows := by
  refine Result.foldlM_invariant (MergeRun P keys account start) (MergeRun.initial start) ?_ merges
  rintro done state envelope rest state' rfl run stepped
  simp only [List.map_append, List.map_cons, List.nodup_append, List.mem_map, List.mem_cons] at identities sequences
  have fresh : ∀ row ∈ done, row.identity ≠ envelope.identity := fun row member =>
    identities.2.2 _ ⟨row, member, rfl⟩ _ (.inl rfl)
  have distinct : ∀ row ∈ done, row.seq ≠ envelope.seq := fun row member =>
    sequences.2.2 _ ⟨row, member, rfl⟩ _ (.inl rfl)
  cases arrives : arrival P keys account envelope with
  | Retained => exact run.retainedStep hex fresh distinct arrives stepped
  | Secret remote => exact run.secretStep hex fresh arrives stepped
  | Public remote => exact run.publicStep hex fresh arrives stepped

/-! ## Outcomes of a merge -/

/-- The work lists a merge starts from. -/
def MergeRows.begin (records : BTreeMap LocalRecord) (sealed : BTreeMap SealedRecord) : MergeRows :=
  { records, sealed, conflicts := [], diagnostics := [] }

section Outcome

variable {pulled : PullResponse} {since : Nat}

theorem validPull_nodup {cursor known : Nat} {baseline : Bool}
    (valid : validPull cursor baseline known pulled since = true) :
    (pulled.records.map Envelope.identity).Nodup ∧ (pulled.records.map (·.seq)).Nodup := by
  simp only [validPull, Bool.and_eq_true, decide_eq_true_eq] at valid
  exact ⟨valid.2, valid.1.2⟩

theorem mergeSpace_incompatible {space : SpaceStateV3} {gate : AccountGate}
    (refused : (mergeSpace P keys space pulled since gate).gate ≠ .Compatible) :
    (mergeSpace P keys space pulled since gate).section_ = space := by
  unfold mergeSpace at refused ⊢
  simp only at refused ⊢
  split
  · rfl
  · split
    · rfl
    · split
      · rfl
      · rename_i admitted valid _ _ merged
        simp only [admitted, valid, Bool.false_eq_true, if_false, merged] at refused
        have compatible : gate = .Compatible := by simpa using admitted
        exact absurd compatible refused

theorem mergeSpace_compatible {space : SpaceStateV3} {gate : AccountGate}
    (admitted : (mergeSpace P keys space pulled since gate).gate = .Compatible) :
    ∃ rows, gate = .Compatible ∧
      validPull space.cursorSeq space.baselineEstablished (maxSeq space.records space.sealed) pulled
        since = true ∧
      mergeRows P keys false (.begin space.records space.sealed) pulled.records = .ok rows ∧
      (mergeSpace P keys space pulled since gate).section_ =
        { space with
          records := rows.records, sealed := rows.sealed, cursorSeq := pulled.latestSeq
          baselineEstablished := true } ∧
      (mergeSpace P keys space pulled since gate).conflicts = rows.conflicts := by
  unfold mergeSpace at admitted ⊢
  simp only at admitted ⊢
  split at admitted
  · rename_i refused
    simp only at admitted
    simp [admitted] at refused
  · rename_i compatible
    rw [if_neg compatible]
    split at admitted
    · cases admitted
    · rename_i valid
      rw [if_neg valid]
      split at admitted
      · cases admitted
      · rename_i rows merged
        exact ⟨rows, admitted, by simpa using valid, merged, rfl, rfl⟩

theorem mergeAccount_incompatible {section_ : AccountState}
    (refused : (mergeAccount P keys section_ pulled since).gate ≠ .Compatible) :
    (mergeAccount P keys section_ pulled since).section_ = section_ := by
  unfold mergeAccount at refused ⊢
  simp only at refused ⊢
  split
  · rfl
  · split
    · rfl
    · split
      · rfl
      · rename_i admitted valid _ _ merged
        simp only [admitted, valid, Bool.false_eq_true, if_false, merged] at refused
        exact absurd (by simpa using admitted) refused

theorem mergeAccount_compatible {section_ : AccountState}
    (admitted : (mergeAccount P keys section_ pulled since).gate = .Compatible) :
    ∃ rows rows', (accountGate P keys section_ pulled).1 = .Compatible ∧
      validPull section_.cursorSeq section_.baselineEstablished
        (maxSeq section_.records section_.sealed) pulled since = true ∧
      admitRetainedGroupOrder P keys (.begin section_.records section_.sealed) = .ok rows ∧
      mergeRows P keys true rows pulled.records = .ok rows' ∧
      (mergeAccount P keys section_ pulled since).section_ =
        { section_ with
          records := rows'.records, sealed := rows'.sealed, cursorSeq := pulled.latestSeq
          baselineEstablished := true
          remoteSchemaVersion := (accountGate P keys section_ pulled).2 } ∧
      (mergeAccount P keys section_ pulled since).conflicts = rows'.conflicts := by
  unfold mergeAccount at admitted ⊢
  simp only at admitted ⊢
  split at admitted
  · rename_i refused
    simp only at admitted
    simp [admitted] at refused
  · rename_i compatible
    rw [if_neg compatible]
    split at admitted
    · cases admitted
    · rename_i valid
      rw [if_neg valid]
      split at admitted
      · cases admitted
      · rename_i rows' merged
        obtain ⟨rows, admits, merges⟩ := Result.bind_eq_ok.mp merged
        exact ⟨rows, rows', admitted, by simpa using valid, admits, merges, rfl, rfl⟩

end Outcome

end Sshelter.Sync
