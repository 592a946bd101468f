import Sshelter.Verified.MergeRows
import Sshelter.Verified.PlainPrimitives

/-! # Every pulled row is accounted for

A merge either leaves the section alone or accounts for each pulled row, touches
nothing else, and lists exactly the unsent work it replaced.  An account may first
admit the navigation record an older version kept as ciphertext.
-/

namespace Sshelter.Sync

section Accounting

variable {P : Primitives} {keys : ChainKeys} {account : Bool}

/-- What a merged section holds for one pulled row. -/
def AccountedFor (P : Primitives) (keys : ChainKeys) (account : Bool) (records : BTreeMap LocalRecord)
    (sealed : BTreeMap SealedRecord) (envelope : Envelope) : Prop :=
  match arrival P keys account envelope with
  | .Public remote =>
    ∃ row, records[recordKey remote.kind remote.id]? = some row ∧
      merge (some row) remote = .KeepLocal ∧ envelope.seq ≤ row.seq
  | .Secret remote =>
    ∃ row held, sealed[envelope.wireKey]? = some row ∧ openRecord P keys row.envelope = .ok held ∧
      merge (some (headerView held row.envelope.seq row.dirty)) remote = .KeepLocal ∧
      envelope.seq ≤ row.envelope.seq
  | .Retained => ∃ row, sealed[envelope.wireKey]? = some row ∧ Retains P keys envelope row

/-- The slot an account keeps the navigation record's ciphertext in. -/
def groupOrderSlot (P : Primitives) (keys : ChainKeys) : String :=
  sealedKey "meta" (idHash P keys "meta" groupOrderId)

def groupOrderKey : String := recordKey .Meta groupOrderId

/-- An older version's navigation record waits in its slot to be read again. -/
def GroupOrderWaits (P : Primitives) (keys : ChainKeys) (account : Bool)
    (sealed : BTreeMap SealedRecord) : Prop :=
  account = true ∧ ∃ row, sealed[groupOrderSlot P keys]? = some row ∧ row.dirty = false

/-- What becomes of a waiting navigation record that the pull does not address: it stays as it was with
its header verified again, or it was read and left its slot for the records, where neither it nor the
row before it is lost. -/
inductive GroupOrderAccounted (P : Primitives) (keys : ChainKeys) (records records' : BTreeMap LocalRecord)
    (sealed' : BTreeMap SealedRecord) (row : SealedRecord) : Prop
  | kept (identity : Option VerifiedPublicIdentity) (unread : readableGroupOrder P keys row.envelope = false)
      (stays : sealed'[groupOrderSlot P keys]? = some { row with publicIdentity := identity })
      (record : records'[groupOrderKey]? = records[groupOrderKey]?)
  | admitted (remote : Record) (row' : LocalRecord) (opened : openRecord P keys row.envelope = .ok remote)
      (slot : recordKey remote.kind remote.id = groupOrderKey) (vacated : sealed'[groupOrderSlot P keys]? = none)
      (held : records'[groupOrderKey]? = some row') (keeps : merge (some row') remote = .KeepLocal)
      (newest : row.envelope.seq ≤ row'.seq)
      (old : ∀ old, records[groupOrderKey]? = some old → merge (some row') old.record = .KeepLocal)

/-- The whole pull is accounted for, nothing else changed, and the conflicts are exactly
the unsent rows that were replaced. -/
structure PullAccounted (P : Primitives) (keys : ChainKeys) (account : Bool)
    (records records' : BTreeMap LocalRecord) (sealed sealed' : BTreeMap SealedRecord)
    (pulled : List Envelope) (conflicts : List String) : Prop where
  rows : ∀ envelope ∈ pulled, AccountedFor P keys account records' sealed' envelope
  otherRecords : ∀ key : String,
    (∀ kind id, recordKey kind id = key → (kind.asStr, idHash P keys kind.asStr id) ∉
      pulled.map Envelope.identity) →
    (GroupOrderWaits P keys account sealed → key ≠ groupOrderKey) → records'[key]? = records[key]?
  otherSealed : ∀ key : String, (∀ envelope ∈ pulled, envelope.wireKey ≠ key) →
    (GroupOrderWaits P keys account sealed → key ≠ groupOrderSlot P keys) → sealed'[key]? = sealed[key]?
  groupOrder : account = true → ∀ row, sealed[groupOrderSlot P keys]? = some row → row.dirty = false →
    (∀ envelope ∈ pulled, envelope.wireKey ≠ groupOrderSlot P keys) →
    GroupOrderAccounted P keys records records' sealed' row
  conflictsNodup : conflicts.Nodup
  conflictsIff : ∀ key, key ∈ conflicts ↔ ReplacedRecord records records' key ∨
    ReplacedSealed P keys sealed sealed' key

/-! ## From the run of a pull -/

theorem mergedRow_keeps (cached : Option LocalRecord) (remote : Record) (seq : Nat) :
    merge (some (mergedRow cached remote seq)) remote = .KeepLocal ∧
      seq ≤ (mergedRow cached remote seq).seq := by
  have itself : ∀ dirty, merge (some { record := remote, seq, dirty }) remote = .KeepLocal :=
    fun dirty => merge_keepLocal_iff.mpr (le_refl _)
  unfold mergedRow
  split
  · exact ⟨itself false, le_refl _⟩
  · split
    · rename_i row keep
      exact ⟨merge_keepLocal_iff.mpr (merge_keepLocal_iff.mp keep), le_max_right _ _⟩
    · exact ⟨itself false, le_refl _⟩

theorem mergedRow_stamp_le {old : LocalRecord} (remote : Record) (seq : Nat) :
    old.record.stamp ≤ (mergedRow (some old) remote seq).record.stamp := by
  simp only [mergedRow]
  split
  · exact le_refl _
  · rename_i wins
    exact le_of_lt (merge_ne_keepLocal_iff.mp wins)

theorem mergedSealed_keeps {envelope : Envelope} {remote : Record}
    (opened : openRecord P keys envelope = .ok remote) (cached : Option SealedRecord) :
    ∃ held, openRecord P keys (mergedSealed P keys cached envelope remote).envelope = .ok held ∧
      remote.stamp ≤ held.stamp ∧
      envelope.seq ≤ (mergedSealed P keys cached envelope remote).envelope.seq := by
  unfold mergedSealed
  split
  · exact ⟨remote, opened, le_refl _, le_refl _⟩
  · rename_i row
    split
    · rename_i keep
      cases openedRow : openRecord P keys row.envelope with
      | error code => simp [secretView, openedRow, merge] at keep
      | ok held =>
        rw [secretView_of_open openedRow, merge_keepLocal_iff] at keep
        exact ⟨held, openedRow, keep, le_max_right _ _⟩
    · exact ⟨remote, opened, le_refl _, le_refl _⟩

section Run

variable {start rows : MergeRows} {pulled : List Envelope}

theorem MergeRun.accountedFor (run : MergeRun P keys account start pulled rows) {envelope : Envelope}
    (member : envelope ∈ pulled) : AccountedFor P keys account rows.records rows.sealed envelope := by
  unfold AccountedFor
  split
  · rename_i remote arrives
    exact ⟨_, run.publicRow envelope member remote arrives, mergedRow_keeps _ _ _⟩
  · rename_i remote arrives
    have opened := (arrival_secret arrives).1
    obtain ⟨held, openedHeld, keeps, newest⟩ :=
      mergedSealed_keeps opened start.sealed[envelope.wireKey]?
    exact ⟨_, held, run.secretRow envelope member remote arrives, openedHeld,
      merge_keepLocal_iff.mpr keeps, newest⟩
  · rename_i arrives
    exact run.retainedRow envelope member arrives

theorem MergeRun.otherRecords (run : MergeRun P keys account start pulled rows) {key : String}
    (absent : ∀ kind id, recordKey kind id = key → (kind.asStr, idHash P keys kind.asStr id) ∉
      pulled.map Envelope.identity) : rows.records[key]? = start.records[key]? := by
  refine run.recordsFrame key fun row member remote arrives same => ?_
  refine absent remote.kind remote.id same (List.mem_map.mpr ⟨row, member, ?_⟩)
  obtain ⟨kind, hash, _⟩ := openRecord_ok (arrival_public arrives).1
  rw [Envelope.identity, kind, hash]

/-- No cached record is lost to an older revision. -/
theorem MergeRun.stamp_le (run : MergeRun P keys account start pulled rows) {key : String}
    {old : LocalRecord} (found : start.records[key]? = some old) :
    ∃ new, rows.records[key]? = some new ∧ old.record.stamp ≤ new.record.stamp := by
  by_cases touched : ∃ row ∈ pulled, ∃ remote, arrival P keys account row = .Public remote ∧
      recordKey remote.kind remote.id = key
  · obtain ⟨row, member, remote, arrives, rfl⟩ := touched
    refine ⟨_, run.publicRow row member remote arrives, ?_⟩
    rw [found]
    exact mergedRow_stamp_le remote row.seq
  · refine ⟨old, ?_, le_refl _⟩
    rw [run.recordsFrame key fun row member remote arrives same =>
      touched ⟨row, member, remote, arrives, same⟩]
    exact found

end Run

/-! ## Admitting the navigation record -/

/-- The section after the admission: the waiting envelope was read into the records, or it
stays where it was with its header verified again. -/
inductive Admission (P : Primitives) (keys : ChainKeys) (rows : MergeRows) : MergeRows → Prop where
  | none (absent : ¬ GroupOrderWaits P keys true rows.sealed) : Admission P keys rows rows
  | kept (row : SealedRecord) (waits : rows.sealed[groupOrderSlot P keys]? = some row)
      (clean : row.dirty = false) (unread : readableGroupOrder P keys row.envelope = false)
      (identity : Option VerifiedPublicIdentity) :
      Admission P keys rows
        { rows with
          sealed := rows.sealed.insert (groupOrderSlot P keys) { row with publicIdentity := identity } }
  | admitted (row : SealedRecord) (waits : rows.sealed[groupOrderSlot P keys]? = some row)
      (clean : row.dirty = false) (remote : Record) (rows' : MergeRows)
      (arrives : arrival P keys true row.envelope = .Public remote)
      (key : recordKey remote.kind remote.id = groupOrderKey)
      (records : rows'.records = rows.records.insert groupOrderKey
        (mergedRow rows.records[groupOrderKey]? remote row.envelope.seq))
      (sealed : rows'.sealed = rows.sealed.erase (groupOrderSlot P keys))
      (conflicts : rows'.conflicts =
        if merge rows.records[groupOrderKey]? remote = .RemoteWinsOverDirtyLocal then
          rows.conflicts ++ [groupOrderKey] else rows.conflicts) :
      Admission P keys rows rows'

theorem GroupOrder.decode_isSome {record : Record} (readable : (GroupOrder.decode record).isSome = true) :
    record.kind = .Meta ∧ record.id = groupOrderId := by
  unfold GroupOrder.decode at readable
  split at readable
  · cases readable
  · rename_i wellFormed
    simp only [Bool.or_eq_true, bne_iff_ne, ne_eq, beq_iff_eq, Bool.not_eq_true', not_or,
      Decidable.not_not] at wellFormed
    exact ⟨wellFormed.1.1.1, wellFormed.1.1.2⟩

theorem admitRetainedGroupOrder_admission {rows rows' : MergeRows}
    (admits : admitRetainedGroupOrder P keys rows = .ok rows') : Admission P keys rows rows' := by
  unfold admitRetainedGroupOrder at admits
  rw [show sealedKey "meta" (idHash P keys "meta" groupOrderId) = groupOrderSlot P keys from rfl] at admits
  cases waits : rows.sealed[groupOrderSlot P keys]? with
  | none =>
    simp only [waits, Except.ok.injEq] at admits
    subst admits
    refine .none fun ⟨_, row, found, _⟩ => ?_
    rw [waits] at found
    cases found
  | some row =>
    simp only [waits] at admits
    split at admits
    · -- an unsent envelope is left alone
      rename_i dirty
      cases admits
      refine .none fun ⟨_, other, found, clean⟩ => ?_
      rw [waits] at found
      cases found
      rw [dirty] at clean
      cases clean
    · rename_i clean
      have clean : row.dirty = false := by simpa using clean
      split at admits
      · -- the envelope is readable now: it is merged as if it had just been pulled, without its slot
        rename_i readable
        unfold readableGroupOrder at readable
        cases opened : openRecord P keys row.envelope with
        | error code => simp [opened] at readable
        | ok remote =>
          simp only [opened] at readable
          obtain ⟨kind, id⟩ := GroupOrder.decode_isSome readable
          have valid : validPublic P keys remote true = true := by
            simp only [validPublic, if_true, kind, id]
            rw [if_neg (by decide)]
            exact readable
          have clear : remote.kind.isSecret = false := by rw [kind]; rfl
          have arrives : arrival P keys true row.envelope = .Public remote := by
            simp [arrival, opened, supported, clear, valid]
          have slot : row.envelope.wireKey = groupOrderSlot P keys := by
            obtain ⟨wireKind, hash, _⟩ := openRecord_ok opened
            rw [Envelope.wireKey, wireKind, hash, kind, id]
            rfl
          simp only [mergeRows, List.foldlM_cons, List.foldlM_nil, bind_pure] at admits
          obtain ⟨_, records, sealed, conflicts⟩ := mergeRow_public arrives admits
          have key : recordKey remote.kind remote.id = groupOrderKey := by rw [kind, id]; rfl
          rw [key] at records conflicts
          refine .admitted row waits clean remote rows' arrives key records ?_ conflicts
          have gone : (rows.sealed.erase (groupOrderSlot P keys))[groupOrderSlot P keys]? = none := by
            rw [BTreeMap.get?_erase, if_pos rfl]
          rw [sealed, slot]
          simp only [gone, Option.any_none, Bool.false_eq_true, if_false]
          exact BTreeMap.erase_erase _ _
      · rename_i unread
        cases admits
        exact .kept row waits clean (by simpa using unread) _

section Admission

variable {start rows : MergeRows}

theorem Admission.otherRecords (admission : Admission P keys start rows) {key : String}
    (apart : GroupOrderWaits P keys true start.sealed → key ≠ groupOrderKey) :
    rows.records[key]? = start.records[key]? := by
  cases admission with
  | none => rfl
  | kept => rfl
  | admitted row waits clean remote _ arrives _ records =>
    rw [records, BTreeMap.get?_insert_ne _ _ (apart ⟨rfl, row, waits, clean⟩).symm]

theorem Admission.otherSealed (admission : Admission P keys start rows) {key : String}
    (apart : GroupOrderWaits P keys true start.sealed → key ≠ groupOrderSlot P keys) :
    rows.sealed[key]? = start.sealed[key]? := by
  cases admission with
  | none => rfl
  | kept row waits clean =>
    simp only [BTreeMap.get?_insert_ne _ _ (apart ⟨rfl, row, waits, clean⟩).symm]
  | admitted row waits clean _ _ _ _ _ sealed =>
    rw [sealed, BTreeMap.get?_erase_ne _ (apart ⟨rfl, row, waits, clean⟩).symm]

/-- Unsent sealed rows stay out of the admission's way. -/
theorem Admission.dirtySealed (admission : Admission P keys start rows) {key : String}
    {row : SealedRecord} (dirty : row.dirty = true) :
    rows.sealed[key]? = some row ↔ start.sealed[key]? = some row := by
  by_cases same : groupOrderSlot P keys = key
  · subst same
    cases admission with
    | none => exact Iff.rfl
    | kept other waits clean unread identity =>
      simp only [BTreeMap.get?_insert_self, waits, Option.some.injEq]
      constructor
      · rintro rfl
        simp [clean] at dirty
      · rintro rfl
        simp [clean] at dirty
    | admitted other waits clean _ _ _ _ _ sealed =>
      rw [sealed, BTreeMap.get?_erase, if_pos rfl, waits]
      constructor
      · intro found
        cases found
      · intro found
        cases found
        rw [clean] at dirty
        cases dirty
  · rw [admission.otherSealed fun _ => Ne.symm same]

theorem Admission.replacedSealed (admission : Admission P keys start rows)
    (final : BTreeMap SealedRecord) (key : String) :
    ReplacedSealed P keys rows.sealed final key ↔ ReplacedSealed P keys start.sealed final key := by
  constructor
  · rintro ⟨old, record, new, found, dirty, rest⟩
    exact ⟨old, record, new, (admission.dirtySealed dirty).mp found, dirty, rest⟩
  · rintro ⟨old, record, new, found, dirty, rest⟩
    exact ⟨old, record, new, (admission.dirtySealed dirty).mpr found, dirty, rest⟩

/-- The admission lists the navigation record exactly when it replaced an unsent one, and
then the merge of the pull does not list it again. -/
theorem Admission.conflicts (admission : Admission P keys start rows) (none_yet : start.conflicts = [])
    {final : BTreeMap LocalRecord}
    (grows : ∀ old, rows.records[groupOrderKey]? = some old →
      ∃ new, final[groupOrderKey]? = some new ∧ old.record.stamp ≤ new.record.stamp) :
    rows.conflicts.Nodup ∧
      (∀ key ∈ rows.conflicts, key = groupOrderKey ∧ ¬ ReplacedRecord rows.records final key) ∧
      ∀ key, ReplacedRecord start.records final key ↔
        ReplacedRecord rows.records final key ∨ key ∈ rows.conflicts := by
  cases admission with
  | none => simp [none_yet]
  | kept => simp [none_yet]
  | admitted row waits clean remote _ arrives _ records _ conflicts =>
    have here : rows.records[groupOrderKey]? =
        some (mergedRow start.records[groupOrderKey]? remote row.envelope.seq) := by
      rw [records, BTreeMap.get?_insert_self]
    -- the admission writes one slot
    have elsewhere : ∀ key, groupOrderKey ≠ key →
        (ReplacedRecord start.records final key ↔ ReplacedRecord rows.records final key) := by
      intro key ne
      unfold ReplacedRecord
      rw [records, BTreeMap.get?_insert_ne _ _ ne]
    obtain ⟨new, found, grown⟩ := grows _ here
    rw [none_yet, List.nil_append] at conflicts
    cases cached : start.records[groupOrderKey]? with
    -- nothing was there, so nothing unsent was replaced
    | none =>
      rw [cached] at conflicts here
      rw [conflicts]
      simp only [merge, reduceCtorEq, if_false, List.nodup_nil, List.not_mem_nil, false_implies,
        implies_true, or_false, true_and]
      intro key
      by_cases same : groupOrderKey = key
      · subst same
        refine iff_of_false ?_ ?_
        · rintro ⟨old, _, found, _⟩
          rw [cached] at found
          cases found
        · rintro ⟨old, _, found, dirty, _⟩
          rw [here] at found
          cases found
          simp [mergedRow] at dirty
      · exact elsewhere key same
    | some old =>
      rw [cached] at conflicts here grown
      rw [conflicts]
      by_cases keep : merge (some old) remote = .KeepLocal
      · -- The cached revision stays and only its sequence number moves.
        have bumped : mergedRow (some old) remote row.envelope.seq =
            { old with seq := max old.seq row.envelope.seq } := by simp [mergedRow, keep]
        rw [bumped] at here
        simp only [keep, reduceCtorEq, if_false, List.nodup_nil, List.not_mem_nil, false_implies,
          implies_true, or_false, true_and]
        intro key
        by_cases same : groupOrderKey = key
        · subst same
          unfold ReplacedRecord
          simp only [cached, here, Option.some.injEq, exists_and_left, exists_eq_left']
        · exact elsewhere key same
      · -- the admitted record has won and is clean, so what the pull does later replaces nothing unsent
        have wins := merge_ne_keepLocal_iff.mp keep
        have replaced : mergedRow (some old) remote row.envelope.seq =
            { record := remote, seq := row.envelope.seq, dirty := false } := by simp [mergedRow, keep]
        rw [replaced] at here grown
        have clear : ¬ ReplacedRecord rows.records final groupOrderKey := by
          rintro ⟨other, _, found, dirty, _⟩
          rw [here] at found
          cases found
          cases dirty
        have listed : merge (some old) remote = .RemoteWinsOverDirtyLocal ↔
            ReplacedRecord start.records final groupOrderKey := by
          rw [merge_conflict_iff]
          constructor
          · rintro ⟨other, same, dirty, _⟩
            cases same
            refine ⟨old, new, cached, dirty, found, fun equal => ?_⟩
            rw [equal] at grown
            exact absurd (lt_of_lt_of_le wins grown) (lt_irrefl _)
          · rintro ⟨other, _, found', dirty, _⟩
            rw [cached] at found'
            cases found'
            exact ⟨old, rfl, dirty, wins⟩
        refine ⟨by split <;> simp, ?_, ?_⟩
        · intro key member
          split at member
          · rw [List.mem_singleton] at member
            subst member
            exact ⟨rfl, clear⟩
          · cases member
        · intro key
          by_cases same : groupOrderKey = key
          · subst same
            rw [← listed]
            simp only [clear, false_or]
            split <;> simp_all
          · rw [elsewhere key same]
            have other : key ∉ (if merge (some old) remote = .RemoteWinsOverDirtyLocal then
                [groupOrderKey] else []) := by
              split
              · exact fun member => same (List.mem_singleton.mp member).symm
              · exact List.not_mem_nil
            simp [other]

end Admission

/-- The rows of a pull that has another identity leave the navigation record alone. -/
theorem MergeRun.groupOrder {start rows rows' : MergeRows} {pulled : List Envelope}
    (admission : Admission P keys start rows) (run : MergeRun P keys true rows pulled rows')
    {row : SealedRecord} (waits : start.sealed[groupOrderSlot P keys]? = some row) (clean : row.dirty = false)
    (absent : ∀ envelope ∈ pulled, envelope.wireKey ≠ groupOrderSlot P keys) :
    GroupOrderAccounted P keys start.records rows'.records rows'.sealed row := by
  have record : rows'.records[groupOrderKey]? = rows.records[groupOrderKey]? := by
    refine run.recordsFrame groupOrderKey fun envelope member remote arrives same => absent envelope member ?_
    -- a row that is read into the record comes under its hashed identity
    obtain ⟨kind, id⟩ := recordKey_injective same
    obtain ⟨wireKind, hash, _⟩ := openRecord_ok (arrival_public arrives).1
    rw [Envelope.wireKey, wireKind, hash, kind, id]
    rfl
  have slot : rows'.sealed[groupOrderSlot P keys]? = rows.sealed[groupOrderSlot P keys]? :=
    run.sealedFrame _ absent
  cases admission with
  | none waitsNot => exact absurd ⟨rfl, row, waits, clean⟩ waitsNot
  | kept other waits' _ unread identity =>
    obtain rfl := Option.some.inj (waits.symm.trans waits')
    exact .kept identity unread (by rw [slot, BTreeMap.get?_insert_self]) record
  | admitted other waits' _ remote _ arrives key records sealed _ =>
    obtain rfl := Option.some.inj (waits.symm.trans waits')
    rw [records, BTreeMap.get?_insert_self] at record
    obtain ⟨keeps, newest⟩ := mergedRow_keeps start.records[groupOrderKey]? remote row.envelope.seq
    refine .admitted remote _ (arrival_public arrives).1 key ?_ record keeps newest fun old found => ?_
    · rw [slot, sealed, BTreeMap.get?_erase, if_pos rfl]
    · rw [found, merge_keepLocal_iff]
      exact mergedRow_stamp_le remote row.envelope.seq

/-! ## Both kinds of section -/

theorem mergeSpace_accounts (hex : P.HexHashes) {space : SpaceStateV3} {pulled : PullResponse}
    {since : Nat} {gate : AccountGate}
    (admitted : (mergeSpace P keys space pulled since gate).gate = .Compatible) :
    PullAccounted P keys false space.records
      (mergeSpace P keys space pulled since gate).section_.records space.sealed
      (mergeSpace P keys space pulled since gate).section_.sealed pulled.records
      (mergeSpace P keys space pulled since gate).conflicts := by
  obtain ⟨rows, _, valid, merges, after, conflicts⟩ := mergeSpace_compatible admitted
  obtain ⟨identities, sequences⟩ := validPull_nodup valid
  have run := mergeRows_run hex identities sequences merges
  rw [after, conflicts]
  obtain ⟨extra, split, nodup, _, iff⟩ := run.conflicts
  have same : rows.conflicts = extra := split
  exact
    { rows := fun envelope member => run.accountedFor member
      otherRecords := fun key absent _ => run.otherRecords absent
      otherSealed := fun key absent _ => run.sealedFrame key absent
      groupOrder := fun isAccount => by cases isAccount
      conflictsNodup := by rw [same]; exact nodup
      conflictsIff := by rw [same]; exact iff }

theorem mergeAccount_accounts (hex : P.HexHashes) {section_ : AccountState} {pulled : PullResponse}
    {since : Nat} (admitted : (mergeAccount P keys section_ pulled since).gate = .Compatible) :
    PullAccounted P keys true section_.records
      (mergeAccount P keys section_ pulled since).section_.records section_.sealed
      (mergeAccount P keys section_ pulled since).section_.sealed pulled.records
      (mergeAccount P keys section_ pulled since).conflicts := by
  obtain ⟨rows, rows', _, valid, admits, merges, after, conflicts⟩ := mergeAccount_compatible admitted
  obtain ⟨identities, sequences⟩ := validPull_nodup valid
  have admission := admitRetainedGroupOrder_admission admits
  have run := mergeRows_run hex identities sequences merges
  rw [after, conflicts]
  obtain ⟨extra, split, nodup, _, iff⟩ := run.conflicts
  obtain ⟨first, apart, replaced⟩ := admission.conflicts rfl fun old found => run.stamp_le found
  refine ⟨fun envelope member => run.accountedFor member, ?_, ?_, ?_, ?_, ?_⟩
  · intro key absent waits
    exact (run.otherRecords absent).trans (admission.otherRecords waits)
  · intro key absent waits
    exact (run.sealedFrame key absent).trans (admission.otherSealed waits)
  · exact fun _ row waits clean absent => run.groupOrder admission waits clean absent
  · rw [split]
    refine List.nodup_append.mpr ⟨first, nodup, ?_⟩
    rintro key member _ member' rfl
    obtain ⟨rfl, clear⟩ := apart key member
    rcases (iff groupOrderKey).mp member' with replaced | replaced
    · exact clear replaced
    · obtain ⟨row, _, remote, arrives, same⟩ := run.sealedSource _ replaced
      exact wireKey_ne_recordKey arrives rfl same
  · intro key
    have records := replaced key
    have sealed := admission.replacedSealed rows'.sealed key
    simp only [MergeRows.begin] at records sealed
    rw [split, List.mem_append, iff, records, sealed]
    tauto

/-- A merge returns the section as it was unless the gate is compatible, and then accounts
for every pulled row. -/
theorem merge_accounts_for_pull (hex : P.HexHashes) (keys : ChainKeys) (pulled : PullResponse)
    (since : Nat) :
    (∀ section_ : AccountState,
      ((mergeAccount P keys section_ pulled since).gate ≠ .Compatible →
        (mergeAccount P keys section_ pulled since).section_ = section_) ∧
      ((mergeAccount P keys section_ pulled since).gate = .Compatible →
        PullAccounted P keys true section_.records
          (mergeAccount P keys section_ pulled since).section_.records section_.sealed
          (mergeAccount P keys section_ pulled since).section_.sealed pulled.records
          (mergeAccount P keys section_ pulled since).conflicts)) ∧
    (∀ (space : SpaceStateV3) (gate : AccountGate),
      ((mergeSpace P keys space pulled since gate).gate ≠ .Compatible →
        (mergeSpace P keys space pulled since gate).section_ = space) ∧
      ((mergeSpace P keys space pulled since gate).gate = .Compatible →
        PullAccounted P keys false space.records
          (mergeSpace P keys space pulled since gate).section_.records space.sealed
          (mergeSpace P keys space pulled since gate).section_.sealed pulled.records
          (mergeSpace P keys space pulled since gate).conflicts)) :=
  ⟨fun _ => ⟨mergeAccount_incompatible, mergeAccount_accounts hex⟩,
    fun _ _ => ⟨mergeSpace_incompatible, mergeSpace_accounts hex⟩⟩

end Accounting

/-! ## Ties and unreadable work

A retained row of the same revision under another ciphertext is kept, although it neither
is the pulled row nor wins over it nor has a larger sequence number.  An unsent secret the
keys cannot open gives way without being listed. -/

namespace Sample

def secretKey : Record :=
  { kind := .Key, id := slotId, version := 1, updatedAtMs := 10, deviceId := device
    deleted := false, payload := .obj [("private_key", .str "k"), ("schema", .num 1)] }

/-- The primitives on the rows below: `f` is the unsupported host, `s` the secret. -/
def tieTable : Primitives :=
  tablePrimitives [("host\n" ++ hostId, "0a"), ("key\n" ++ slotId, "0b")]
    [("f", (futureHost 1 10).toJson), ("s", secretKey.toJson)]

/-- The unsupported host, sealed under the given nonce. -/
def futureRow (nonce : String) (seq : Nat) : Envelope :=
  { idHash := "0a", kind := "host", seq, nonce, ciphertext := nonce ++ "f", deleted := false }

def secretRow (ciphertext : String) (seq : Nat) : Envelope :=
  { idHash := "0b", kind := "key", seq, nonce := "n", ciphertext, deleted := false }

/-- The unsupported host is retained; its row was sealed with nonce `n`. -/
def retainedSpace : SpaceStateV3 :=
  { space with
    cursorSeq := 5
    sealed := (∅ : BTreeMap SealedRecord).insert "host:0a"
      { envelope := futureRow "n" 5, dirty := false, publicIdentity := none } }

/-- An unsent secret whose ciphertext does not authenticate. -/
def unreadableSecret : SealedRecord :=
  { envelope := secretRow "x" 0, dirty := true, publicIdentity := none }

def unreadableAccount : AccountState :=
  { account with sealed := (∅ : BTreeMap SealedRecord).insert "key:0b" unreadableSecret }

def tieOutcome : TypedMergeOutcome SpaceStateV3 :=
  mergeSpace tieTable keys retainedSpace { records := [futureRow "m" 7], latestSeq := 7 } 5 .Compatible

def unreadableOutcome : TypedMergeOutcome AccountState :=
  mergeAccount tieTable keys unreadableAccount { records := [secretRow "ns" 7], latestSeq := 7 } 1

def orderRecord : Record :=
  { kind := .Meta, id := groupOrderId, version := 1, updatedAtMs := 10, deviceId := device
    deleted := false, payload := GroupOrder.toJson { schema := 1, ids := [] } }

def orderTable : Primitives :=
  tablePrimitives [("meta\n" ++ groupOrderId, "0c")] [("o", orderRecord.toJson)]

/-- The navigation record that an older version kept as ciphertext. -/
def waitingOrder : SealedRecord :=
  { envelope := { idHash := "0c", kind := "meta", seq := 1, nonce := "n", ciphertext := "no", deleted := false }
    dirty := false, publicIdentity := none }

def orderAccount : AccountState :=
  { account with sealed := (∅ : BTreeMap SealedRecord).insert "meta:0c" waitingOrder }

def orderOutcome : TypedMergeOutcome AccountState :=
  mergeAccount orderTable keys orderAccount { records := [], latestSeq := 7 } 1

end Sample

/-- A pull of a retained row, and one that finds the navigation record waiting and reads it. -/
theorem merge_accounts_for_sample_pull :
    (Sample.tieOutcome.gate = .Compatible ∧
      PullAccounted Sample.tieTable Sample.keys false Sample.retainedSpace.records
        Sample.tieOutcome.section_.records Sample.retainedSpace.sealed Sample.tieOutcome.section_.sealed
        [Sample.futureRow "m" 7] Sample.tieOutcome.conflicts) ∧
    Sample.orderOutcome.gate = .Compatible ∧
      Sample.orderOutcome.section_.records[groupOrderKey]? =
        some { record := Sample.orderRecord, seq := 1, dirty := false } ∧
      GroupOrderAccounted Sample.orderTable Sample.keys Sample.orderAccount.records
        Sample.orderOutcome.section_.records Sample.orderOutcome.section_.sealed Sample.waitingOrder := by
  have tie : Sample.tieOutcome.gate = .Compatible := by decide +kernel
  have order : Sample.orderOutcome.gate = .Compatible ∧ Sample.orderOutcome.section_.records[groupOrderKey]? =
      some { record := Sample.orderRecord, seq := 1, dirty := false } := by decide +kernel
  obtain ⟨_, spaces⟩ := merge_accounts_for_pull (P := Sample.tieTable) (tablePrimitives_hexHashes (by decide))
    Sample.keys { records := [Sample.futureRow "m" 7], latestSeq := 7 } 5
  obtain ⟨accounts, _⟩ := merge_accounts_for_pull (P := Sample.orderTable) (tablePrimitives_hexHashes (by decide))
    Sample.keys { records := [], latestSeq := 7 } 1
  have accounted := (accounts Sample.orderAccount).2 order.1
  refine ⟨⟨tie, (spaces Sample.retainedSpace .Compatible).2 tie⟩, order.1, order.2, ?_⟩
  exact accounted.groupOrder rfl Sample.waitingOrder (by decide +kernel) rfl nofun

theorem retained_tie_and_unreadable_secret :
    (∃ row held remote, Sample.tieOutcome.gate = .Compatible ∧
      Sample.tieOutcome.section_.sealed["host:0a"]? = some row ∧
      openRecord Sample.tieTable Sample.keys row.envelope = .ok held ∧
      openRecord Sample.tieTable Sample.keys (Sample.futureRow "m" 7) = .ok remote ∧
      row.envelope ≠ Sample.futureRow "m" 7 ∧ remoteWins remote held = false ∧
      ¬ (Sample.futureRow "m" 7).seq < row.envelope.seq) ∧
    ∃ new, Sample.unreadableOutcome.gate = .Compatible ∧
      Sample.unreadableAccount.sealed["key:0b"]? = some Sample.unreadableSecret ∧
      Sample.unreadableSecret.dirty = true ∧
      Sample.unreadableOutcome.section_.sealed["key:0b"]? = some new ∧
      sameCiphertext Sample.unreadableSecret.envelope new.envelope = false ∧
      Sample.unreadableOutcome.conflicts = [] := by
  refine ⟨⟨{ envelope := Sample.futureRow "n" 7, dirty := false
             publicIdentity := some
               { id := Sample.hostId, version := 1, updatedAtMs := 10, deviceId := Sample.otherDevice
                 deleted := false } },
      Sample.futureHost 1 10, Sample.futureHost 1 10, ?_⟩,
    ⟨{ envelope := Sample.secretRow "ns" 7, dirty := false, publicIdentity := none }, ?_⟩⟩
  · decide +kernel
  · decide +kernel

end Sshelter.Sync
