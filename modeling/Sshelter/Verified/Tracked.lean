import Sshelter.Sync.Exchange
import Sshelter.Verified.Hosts
import Sshelter.Verified.MergeAccounting

/-! # Following a shared space

The log of the rows the relay ever accepted describes every state of the exchange.
Along the log the revisions of one host only grow; a device never falls behind the part
of the log its sequence numbers cover; and a revision is determined by its host, its
time and its author.
-/

namespace Sshelter.Sync

open Relay (Chain PushResult)

section
variable (P : Primitives) (keys : ChainKeys)

/-- A valid typed host. -/
structure TypedHost (record : Record) : Prop where
  kind : record.kind = .Host
  valid : validPublic P keys record false = true

/-- The log explains the relay's rows. -/
structure LogOk (log : List Envelope) (relay : Chain) : Prop where
  opens : ∀ entry ∈ log, ∃ record, openRecord P keys entry = .ok record ∧ TypedHost P keys record
  range : ∀ entry ∈ log, 0 < entry.seq ∧ entry.seq ≤ relay.latestSeq
  /-- Later revisions of one host never lose to earlier ones. -/
  grows : ∀ earlier ∈ log, ∀ later ∈ log, ∀ old new, openRecord P keys earlier = .ok old →
    openRecord P keys later = .ok new → old.id = new.id → earlier.seq ≤ later.seq → old.stamp ≤ new.stamp
  stored : ∀ (hash : String) row, relay.rows[hash]? = some row → row ∈ log ∧ row.idHash = hash
  newest : ∀ entry ∈ log, ∃ row, relay.rows[entry.idHash]? = some row ∧ entry.seq ≤ row.seq

/-- A revision that may be offered over base `seq`: it beats what the log had by then. -/
def Covers (log : List Envelope) (seq : Nat) (record : Record) : Prop :=
  ∀ entry ∈ log, ∀ old, openRecord P keys entry = .ok old → old.id = record.id → entry.seq ≤ seq →
    old.stamp ≤ record.stamp

structure DeviceOk (log : List Envelope) (latest : Nat) (space : SpaceStateV3) : Prop where
  sealed : space.sealed = ∅
  rows : ∀ (key : String) row, space.records[key]? = some row →
    key = recordKey .Host row.record.id ∧ TypedHost P keys row.record
  /-- A row's sequence number is the one of a logged revision of its host, or zero. -/
  origin : ∀ (key : String) row, space.records[key]? = some row → row.seq = 0 ∨ ∃ entry ∈ log,
    ∃ record, openRecord P keys entry = .ok record ∧ record.id = row.record.id ∧ entry.seq = row.seq
  covers : ∀ (key : String) row, space.records[key]? = some row → Covers P keys log row.seq row.record
  clean : ∀ (key : String) row, space.records[key]? = some row → row.dirty = false →
    ∃ entry ∈ log, openRecord P keys entry = .ok row.record
  cursor : space.cursorSeq ≤ latest
  seen : ∀ entry ∈ log, ∀ record, openRecord P keys entry = .ok record → entry.seq ≤ space.cursorSeq →
    ∃ row, space.records[recordKey .Host record.id]? = some row ∧ entry.seq ≤ row.seq

/-- A pull in flight holds logged rows, and everything newer than the asked cursor up to its
own latest number. -/
structure PullOk (log : List Envelope) (latest since : Nat) (response : PullResponse) : Prop where
  bounded : response.latestSeq ≤ latest
  logged : ∀ row ∈ response.records, row ∈ log
  complete : ∀ entry ∈ log, since < entry.seq → entry.seq ≤ response.latestSeq →
    ∃ row ∈ response.records, row.idHash = entry.idHash ∧ entry.seq ≤ row.seq

/-- An offered row is a sealed revision with the base it was collected at. -/
structure OfferedOk (log : List Envelope) (latest : Nat) (row : TypedOutgoing) (record : Record) :
    Prop where
  expected : row.expected = .Public record
  key : row.outgoing.key = recordKey .Host record.id
  item : ∃ nonce, row.outgoing.item = encodeRecord P keys record row.outgoing.item.baseSeq nonce
  host : TypedHost P keys record
  base : row.outgoing.item.baseSeq ≤ latest
  covers : Covers P keys log row.outgoing.item.baseSeq record

structure OfferOk (log : List Envelope) (latest : Nat) (rows : List TypedOutgoing) : Prop where
  each : ∀ row ∈ rows, ∃ record, OfferedOk P keys log latest row record
  distinct : (rows.map (·.outgoing.key)).Nodup

/-- A receipt names a logged row with the revision that was sent. -/
def ReceiptOk (log : List Envelope) (rows : List TypedOutgoing) (pushed : Pushed) : Prop :=
  ∀ key seq, (key, seq) ∈ pushed.accepted → ∃ row ∈ rows, row.outgoing.key = key ∧
    ∃ record, row.expected = .Public record ∧ ∃ entry ∈ log, entry.seq = seq ∧
      openRecord P keys entry = .ok record

/-- The revisions that exist anywhere in the world. -/
inductive Revision (log : List Envelope) (world : World) : Record → Prop
  | logged {entry : Envelope} {record : Record} (member : entry ∈ log)
      (opened : openRecord P keys entry = .ok record) : Revision log world record
  | held {device key : String} {row : LocalRecord}
      (found : (world.device device).records[key]? = some row) : Revision log world row.record
  | offered {device : String} {rows : List TypedOutgoing} {row : TypedOutgoing} {record : Record}
      (sent : (device, rows) ∈ world.offers) (member : row ∈ rows)
      (expected : row.expected = .Public record) : Revision log world record

structure Tracked (log : List Envelope) (world : World) : Prop where
  explained : LogOk P keys log world.relay
  device : ∀ device, DeviceOk P keys log world.relay.latestSeq (world.device device)
  pulls : ∀ device since response, (device, since, response) ∈ world.pulls →
    PullOk log world.relay.latestSeq since response
  offers : ∀ device rows, (device, rows) ∈ world.offers →
    OfferOk P keys log world.relay.latestSeq rows
  receipts : ∀ device rows pushed, (device, rows, pushed) ∈ world.receipts →
    (device, rows) ∈ world.offers ∧ ReceiptOk P keys log rows pushed
  /-- A host, a time and an author determine the revision. -/
  unique : ∀ a b, Revision P keys log world a → Revision P keys log world b → a.id = b.id →
    a.stamp = b.stamp → a = b
  /-- The author of a revision has not fallen behind it. -/
  authored : ∀ record, Revision P keys log world record →
    ∃ row, (world.device record.deviceId).records[recordKey .Host record.id]? = some row ∧
      record.updatedAtMs ≤ row.record.updatedAtMs

end

section
variable {P : Primitives} {keys : ChainKeys}

/-! ## Small facts -/

theorem time_le_of_stamp_le {a b : Record} (le : a.stamp ≤ b.stamp) : a.updatedAtMs ≤ b.updatedAtMs := by
  by_contra later
  have less : b.stamp < a.stamp := stamp_lt_iff.mpr (.inl (by omega))
  exact absurd le (not_le.mpr less)

theorem stamp_lt_of_time_lt {a b : Record} (less : a.updatedAtMs < b.updatedAtMs) : a.stamp < b.stamp :=
  stamp_lt_iff.mpr (.inl less)

/-- Rows of one host share their hash, and rows of one hash their host. -/
theorem id_eq_of_idHash (ideal : P.Ideal) {a b : Envelope} {recordA recordB : Record}
    (openedA : openRecord P keys a = .ok recordA) (openedB : openRecord P keys b = .ok recordB)
    (same : a.idHash = b.idHash) : recordA.id = recordB.id := by
  obtain ⟨_, hashA, _⟩ := openRecord_ok openedA
  obtain ⟨_, hashB, _⟩ := openRecord_ok openedB
  rw [hashA, hashB] at same
  exact (idHash_kind_injective ideal same).2

theorem TypedHost.arrival {entry : Envelope} {record : Record} (host : TypedHost P keys record)
    (opened : openRecord P keys entry = .ok record) :
    Sync.arrival P keys false entry = .Public record := by
  have clear : record.kind.isSecret = false := by rw [host.kind]; rfl
  simp [Sync.arrival, opened, supported, clear, host.valid]

theorem TypedHost.recordKey {record : Record} (host : TypedHost P keys record) :
    Sync.recordKey record.kind record.id = Sync.recordKey .Host record.id := by
  rw [host.kind]

theorem LogOk.covers {log : List Envelope} {relay : Chain} (explained : LogOk P keys log relay)
    {entry : Envelope} {record : Record} (member : entry ∈ log)
    (opened : openRecord P keys entry = .ok record) : Covers P keys log entry.seq record :=
  fun other logged old openedOld ids below =>
    explained.grows other logged entry member old record openedOld opened ids below

/-! ## The first world -/

theorem tracked_initial (tokenHash : String) : Tracked P keys [] (.initial tokenHash) := by
  have none_held : ∀ device (key : String) (row : LocalRecord),
      ((World.initial tokenHash).device device).records[key]? ≠ some row := by
    intro device key row
    simp [World.initial, SpaceStateV3.default]
  have no_revision : ∀ record, ¬ Revision P keys [] (World.initial tokenHash) record := by
    intro record revision
    cases revision with
    | logged member => cases member
    | held found => exact none_held _ _ _ found
    | offered sent => cases sent
  exact
    { explained :=
        { opens := by simp, range := by simp, grows := by simp
          stored := by simp [World.initial, Chain.new], newest := by simp }
      device := fun device =>
        { sealed := rfl
          rows := fun key row found => absurd found (none_held _ _ _)
          origin := fun key row found => absurd found (none_held _ _ _)
          covers := fun key row found => absurd found (none_held _ _ _)
          clean := fun key row found => absurd found (none_held _ _ _)
          cursor := le_refl _
          seen := by simp }
      pulls := by simp [World.initial]
      offers := by simp [World.initial]
      receipts := by simp [World.initial]
      unique := fun a b revision => absurd revision (no_revision a)
      authored := fun record revision => absurd revision (no_revision record) }

/-! ## A device changes -/

section Device
variable {log : List Envelope} {world : World} {device : String} {space : SpaceStateV3}

theorem revision_setDevice {record : Record}
    (revision : Revision P keys log (world.setDevice device space) record) :
    (∃ (key : String) (row : LocalRecord), space.records[key]? = some row ∧ row.record = record) ∨
      Revision P keys log world record := by
  cases revision with
  | logged member opened => exact .inr (.logged member opened)
  | @held other key row found =>
    by_cases same : other = device
    · subst same
      rw [World.setDevice_self] at found
      exact .inl ⟨key, row, found, rfl⟩
    · rw [World.setDevice_ne _ _ same] at found
      exact .inr (.held found)
  | offered sent member expected => exact .inr (.offered sent member expected)

/-- A device may change if it stays in order, none of its hosts goes back in time, and what
is new was written by the device itself. -/
theorem Tracked.setDevice (tracked : Tracked P keys log world)
    (ok : DeviceOk P keys log world.relay.latestSeq space)
    (forward : ∀ (key : String) row, (world.device device).records[key]? = some row →
      ∃ row', space.records[key]? = some row' ∧ row.record.updatedAtMs ≤ row'.record.updatedAtMs)
    (known : ∀ (key : String) row, space.records[key]? = some row →
      Revision P keys log world row.record ∨
        row.record.deviceId = device ∧ ∀ other, Revision P keys log world other →
          other.id = row.record.id → other.stamp ≠ row.record.stamp) :
    Tracked P keys log (world.setDevice device space) where
  explained := tracked.explained
  device other := by
    by_cases same : other = device
    · subst same
      rw [World.setDevice_self]
      exact ok
    · rw [World.setDevice_ne _ _ same]
      exact tracked.device other
  pulls := tracked.pulls
  offers := tracked.offers
  receipts := tracked.receipts
  unique a b revisionA revisionB ids stamps := by
    rcases revision_setDevice revisionA with ⟨keyA, rowA, foundA, rfl⟩ | oldA
    · rcases revision_setDevice revisionB with ⟨keyB, rowB, foundB, rfl⟩ | oldB
      · -- Two rows of one section with one id are one row.
        have sameKey : keyA = keyB := by
          rw [(ok.rows keyA rowA foundA).1, (ok.rows keyB rowB foundB).1, ids]
        subst sameKey
        rw [foundA] at foundB
        cases foundB
        rfl
      · rcases known keyA rowA foundA with oldA | ⟨_, apart⟩
        · exact tracked.unique _ _ oldA oldB ids stamps
        · exact absurd stamps.symm (apart b oldB ids.symm)
    · rcases revision_setDevice revisionB with ⟨keyB, rowB, foundB, rfl⟩ | oldB
      · rcases known keyB rowB foundB with oldB | ⟨_, apart⟩
        · exact tracked.unique _ _ oldA oldB ids stamps
        · exact absurd stamps (apart a oldA ids)
      · exact tracked.unique a b oldA oldB ids stamps
  authored record revision := by
    -- a revision that was known is still held by its author, or a later one is
    have kept : Revision P keys log world record →
        ∃ row, ((world.setDevice device space).device record.deviceId).records[recordKey .Host
          record.id]? = some row ∧ record.updatedAtMs ≤ row.record.updatedAtMs := by
      intro old
      obtain ⟨row, found, time⟩ := tracked.authored record old
      by_cases same : record.deviceId = device
      · rw [same] at found ⊢
        obtain ⟨row', found', time'⟩ := forward _ row found
        exact ⟨row', by rw [World.setDevice_self]; exact found', le_trans time time'⟩
      · exact ⟨row, by rw [World.setDevice_ne _ _ same]; exact found, time⟩
    rcases revision_setDevice revision with ⟨key, row, found, rfl⟩ | old
    · rcases known key row found with old | ⟨author, _⟩
      · exact kept old
      · refine ⟨row, ?_, le_refl _⟩
        rw [author, ← (ok.rows key row found).1, World.setDevice_self]
        exact found
    · exact kept old

end Device

/-! ## Edits -/

theorem Tracked.edit {log : List Envelope} {world : World} {device id : String} {payload : Json}
    {deleted : Bool} {now : Nat} {previous : List Record} {record : Record}
    (tracked : Tracked P keys log world)
    (cached : ∀ row, (world.device device).records[recordKey .Host id]? = some row →
      row.record ∈ previous)
    (ordered : orderedRecord device id payload deleted now previous = .ok record)
    (valid : validPublic P keys record false = true) :
    Tracked P keys log (world.setDevice device ((world.device device).edited keys.chainId record)) := by
  obtain ⟨kind, rfl, author, _, _, _, later⟩ := orderedRecord_spec ordered
  have before := tracked.device device
  have host : TypedHost P keys record := ⟨kind, valid⟩
  -- Every revision the device holds of this host is older than the new one.
  have older : ∀ row, (world.device device).records[recordKey .Host record.id]? = some row →
      row.record.updatedAtMs < record.updatedAtMs :=
    fun row found => (later row.record (cached row found)).2
  generalize seqIs : ((((world.device device).records[recordKey .Host record.id]?).map (·.seq)).getD 0) = seq
  have edited : (world.device device).edited keys.chainId record =
      { world.device device with
        records := (world.device device).records.insert (recordKey .Host record.id)
          { record, seq, dirty := true } } := by
    rw [SpaceStateV3.edited, kind, ← seqIs]
    rfl
  rw [edited]
  have lookup : ∀ (key : String) row, ((world.device device).records.insert (recordKey .Host record.id)
      { record, seq, dirty := true })[key]? = some row →
      key = recordKey .Host record.id ∧ row = { record, seq, dirty := true } ∨
        (world.device device).records[key]? = some row := by
    intro key row found
    rw [BTreeMap.get?_insert] at found
    split at found
    · rename_i same
      cases found
      exact .inl ⟨same.symm, rfl⟩
    · exact .inr found
  have covers : Covers P keys log seq record := by
    cases found : (world.device device).records[recordKey .Host record.id]? with
    | none =>
      rw [found] at seqIs
      intro entry member old _ _ below
      have positive := (tracked.explained.range entry member).1
      have : seq = 0 := seqIs.symm
      omega
    | some row =>
      rw [found] at seqIs
      intro entry member old opened ids below
      have same : record.id = row.record.id :=
        (recordKey_injective (before.rows _ row found).1).2
      have bound := before.covers _ row found entry member old opened (ids.trans same)
        (by rw [show row.seq = seq from seqIs]; exact below)
      exact le_trans bound (le_of_lt (stamp_lt_of_time_lt (older row found)))
  have origin : seq = 0 ∨ ∃ entry ∈ log, ∃ other, openRecord P keys entry = .ok other ∧
      other.id = record.id ∧ entry.seq = seq := by
    cases found : (world.device device).records[recordKey .Host record.id]? with
    | none =>
      rw [found] at seqIs
      exact .inl seqIs.symm
    | some row =>
      rw [found] at seqIs
      have same : record.id = row.record.id :=
        (recordKey_injective (before.rows _ row found).1).2
      rw [same, ← show row.seq = seq from seqIs]
      exact before.origin _ row found
  refine tracked.setDevice ?_ ?_ ?_
  · refine ⟨before.sealed, ?_, ?_, ?_, ?_, before.cursor, ?_⟩
    · intro key row found
      rcases lookup key row found with ⟨rfl, rfl⟩ | found
      · exact ⟨rfl, host⟩
      · exact before.rows key row found
    · intro key row found
      rcases lookup key row found with ⟨rfl, rfl⟩ | found
      · exact origin
      · exact before.origin key row found
    · intro key row found
      rcases lookup key row found with ⟨rfl, rfl⟩ | found
      · exact covers
      · exact before.covers key row found
    · intro key row found clean
      rcases lookup key row found with ⟨rfl, rfl⟩ | found
      · cases clean
      · exact before.clean key row found clean
    · intro entry member other opened below
      obtain ⟨row, found, bound⟩ := before.seen entry member other opened below
      by_cases same : recordKey .Host record.id = recordKey .Host other.id
      · refine ⟨{ record, seq, dirty := true }, ?_, ?_⟩
        · simp only [same]
          exact BTreeMap.get?_insert_self _ _ _
        · rw [← same] at found
          rw [found] at seqIs
          exact le_trans bound (le_of_eq seqIs)
      · exact ⟨row, (BTreeMap.get?_insert_ne _ _ same).trans found, bound⟩
  · intro key row found
    by_cases same : recordKey .Host record.id = key
    · subst same
      exact ⟨_, BTreeMap.get?_insert_self _ _ _, le_of_lt (older row found)⟩
    · exact ⟨row, (BTreeMap.get?_insert_ne _ _ same).trans found, le_refl _⟩
  · intro key row found
    rcases lookup key row found with ⟨rfl, rfl⟩ | found
    · right
      refine ⟨author, fun other revision ids stamps => ?_⟩
      -- An equal stamp would name this device as the author of a revision it is behind of.
      obtain ⟨times, _, authors⟩ := stamp_eq_iff.mp stamps
      obtain ⟨row, held, time⟩ := tracked.authored other revision
      rw [authors, author, ids] at held
      exact absurd (older row held) (not_lt.mpr (times ▸ time))
    · exact .inl (.held found)

/-! ## Pulls and merges -/

theorem Tracked.pull {log : List Envelope} {world : World} (tracked : Tracked P keys log world)
    (device : String) (since : Nat) :
    Tracked P keys log { world with pulls := (device, since, world.relay.pull since) :: world.pulls } := by
  refine { tracked with pulls := ?_, unique := ?_, authored := ?_ }
  · intro other since' response member
    rcases List.mem_cons.mp member with same | member
    · cases same
      refine ⟨le_refl _, fun row inPull => ?_, fun entry logged after _ => ?_⟩
      · obtain ⟨_, hash, stored⟩ := Relay.Chain.mem_pull.mp inPull
        exact (tracked.explained.stored hash row stored).1
      · obtain ⟨row, stored, bound⟩ := tracked.explained.newest entry logged
        exact ⟨row, Relay.Chain.mem_pull.mpr ⟨by omega, _, stored⟩,
          (tracked.explained.stored _ row stored).2, bound⟩
    · exact tracked.pulls other since' response member
  · intro a b revisionA revisionB
    apply tracked.unique
    · cases revisionA with
      | logged member opened => exact .logged member opened
      | held found => exact .held found
      | offered sent member expected => exact .offered sent member expected
    · cases revisionB with
      | logged member opened => exact .logged member opened
      | held found => exact .held found
      | offered sent member expected => exact .offered sent member expected
  · intro record revision
    apply tracked.authored
    cases revision with
    | logged member opened => exact .logged member opened
    | held found => exact .held found
    | offered sent member expected => exact .offered sent member expected

/-- Public rows leave an empty sealed section empty. -/
theorem mergeRows_sealed_empty {start rows : MergeRows} {pulled : List Envelope}
    (empty : start.sealed = ∅)
    (hosts : ∀ row ∈ pulled, ∃ record, arrival P keys false row = .Public record)
    (merges : mergeRows P keys false start pulled = .ok rows) : rows.sealed = ∅ := by
  refine Result.foldlM_invariant (fun (_ : List Envelope) (rows : MergeRows) => rows.sealed = ∅) empty
    ?_ merges
  rintro done state envelope rest state' rfl empty stepped
  obtain ⟨record, arrives⟩ := hosts envelope (by simp)
  obtain ⟨_, _, sealed, _⟩ := mergeRow_public arrives stepped
  rw [sealed, empty]
  split
  · rfl
  · refine BTreeMap.ext fun key => ?_
    rw [BTreeMap.get?_erase]
    split <;> simp

section Merge
variable {log : List Envelope} {relay : Chain} {space : SpaceStateV3} {since : Nat}
  {response : PullResponse}

/-- The merged row is the arrived one, or the cached one with the larger number. -/
theorem mergedRow_cases (cached : Option LocalRecord) (remote : Record) (seq : Nat) :
    (mergedRow cached remote seq = { record := remote, seq, dirty := false } ∧
      ∀ row, cached = some row → row.record.stamp < remote.stamp) ∨
    ∃ row, cached = some row ∧ remote.stamp ≤ row.record.stamp ∧
      mergedRow cached remote seq = { row with seq := max row.seq seq } := by
  cases cached with
  | none => exact .inl ⟨rfl, by simp⟩
  | some row =>
    by_cases kept : merge (some row) remote = .KeepLocal
    · exact .inr ⟨row, rfl, merge_keepLocal_iff.mp kept, by simp only [mergedRow, kept, if_true]⟩
    · refine .inl ⟨by simp only [mergedRow, kept, if_false], ?_⟩
      intro other same
      cases same
      exact merge_ne_keepLocal_iff.mp kept

theorem le_mergedRow_seq (cached : Option LocalRecord) (remote : Record) (seq : Nat) :
    seq ≤ (mergedRow cached remote seq).seq := by
  rcases mergedRow_cases cached remote seq with ⟨taken, _⟩ | ⟨row, _, _, kept⟩
  · rw [taken]
  · rw [kept]
    exact le_max_right _ _

/-- A cached row never goes back when a logged row is merged over it. -/
theorem mergedRow_ahead {row : LocalRecord} {entry : Envelope} {remote : Record}
    (covers : Covers P keys log row.seq row.record) (member : entry ∈ log)
    (opened : openRecord P keys entry = .ok remote) (ids : remote.id = row.record.id) :
    row.seq ≤ (mergedRow (some row) remote entry.seq).seq ∧
      row.record.updatedAtMs ≤ (mergedRow (some row) remote entry.seq).record.updatedAtMs := by
  rcases mergedRow_cases (some row) remote entry.seq with ⟨taken, beaten⟩ | ⟨_, same, _, kept⟩
  · have wins := beaten row rfl
    rw [taken]
    refine ⟨?_, time_le_of_stamp_le (le_of_lt wins)⟩
    -- A revision the cached number already covers could not have won.
    by_contra behind
    exact absurd (covers entry member remote opened ids (le_of_lt (not_le.mp behind))) (not_le.mpr wins)
  · cases same
    rw [kept]
    exact ⟨le_max_left _ _, le_refl _⟩

theorem mergedRow_covers (explained : LogOk P keys log relay) {cached : Option LocalRecord}
    {entry : Envelope} {remote : Record} (member : entry ∈ log)
    (opened : openRecord P keys entry = .ok remote)
    (before : ∀ row, cached = some row → row.record.id = remote.id ∧ Covers P keys log row.seq row.record) :
    Covers P keys log (mergedRow cached remote entry.seq).seq (mergedRow cached remote entry.seq).record := by
  have arrived : Covers P keys log entry.seq remote := explained.covers member opened
  rcases mergedRow_cases cached remote entry.seq with ⟨taken, _⟩ | ⟨row, held, loses, kept⟩
  · rw [taken]
    exact arrived
  · obtain ⟨ids, covers⟩ := before row held
    rw [kept]
    intro other logged old openedOld same below
    rcases le_max_iff.mp below with below | below
    · exact covers other logged old openedOld same below
    · exact le_trans (arrived other logged old openedOld (same.trans ids) below) loses

/-- The merged section in terms of the old one: a slot holds its old row, or the old row with
one pulled row merged over it. -/
theorem mergeSpace_slots (ideal : P.Ideal) (explained : LogOk P keys log relay)
    (before : DeviceOk P keys log relay.latestSeq space)
    (pulled : PullOk log relay.latestSeq since response)
    (admitted : (mergeSpace P keys space response since .Compatible).gate = .Compatible) :
    let after := (mergeSpace P keys space response since .Compatible).section_
    after.sealed = ∅ ∧ after.cursorSeq = response.latestSeq ∧
      (∀ entry ∈ response.records, ∀ remote, openRecord P keys entry = .ok remote →
        after.records[recordKey .Host remote.id]? =
          some (mergedRow space.records[recordKey .Host remote.id]? remote entry.seq)) ∧
      (∀ key : String, after.records[key]? = space.records[key]? ∨ ∃ entry ∈ log, ∃ remote,
        openRecord P keys entry = .ok remote ∧ TypedHost P keys remote ∧ key = recordKey .Host remote.id ∧
        after.records[key]? = some (mergedRow space.records[key]? remote entry.seq)) ∧
      (since = 0 ∨ since = space.cursorSeq) := by
  obtain ⟨rows, _, valid, merges, after, _⟩ := mergeSpace_compatible admitted
  obtain ⟨identities, sequences⟩ := validPull_nodup valid
  have run := mergeRows_run ideal.hmac_hex identities sequences merges
  have hosts : ∀ entry ∈ response.records, ∃ remote, openRecord P keys entry = .ok remote ∧
      TypedHost P keys remote :=
    fun entry member => explained.opens entry (pulled.logged entry member)
  -- every row of the chain is a host this version reads, so none is retained
  have arrives : ∀ entry ∈ response.records, ∃ remote, arrival P keys false entry = .Public remote := by
    intro entry member
    obtain ⟨remote, opened, host⟩ := hosts entry member
    exact ⟨remote, host.arrival opened⟩
  have merged : ∀ entry ∈ response.records, ∀ remote, openRecord P keys entry = .ok remote →
      rows.records[recordKey .Host remote.id]? =
        some (mergedRow space.records[recordKey .Host remote.id]? remote entry.seq) := by
    intro entry member remote opened
    obtain ⟨other, openedOther, host⟩ := hosts entry member
    rw [opened] at openedOther
    cases openedOther
    have slot := run.publicRow entry member remote (host.arrival opened)
    rw [host.recordKey] at slot
    exact slot
  rw [after]
  refine ⟨mergeRows_sealed_empty before.sealed arrives merges, rfl, merged, ?_, ?_⟩
  · intro key
    by_cases addressed : ∃ entry ∈ response.records, ∃ remote,
        arrival P keys false entry = .Public remote ∧ recordKey remote.kind remote.id = key
    · obtain ⟨entry, member, remote, arrived, rfl⟩ := addressed
      obtain ⟨other, opened, host⟩ := hosts entry member
      have same := host.arrival opened
      rw [arrived] at same
      cases same
      rw [host.recordKey]
      exact .inr ⟨entry, pulled.logged entry member, remote, opened, host, rfl, merged entry member remote opened⟩
    · refine .inl (run.recordsFrame key fun entry member remote arrived same => ?_)
      exact addressed ⟨entry, member, remote, arrived, same⟩
  · -- a pull that does not start from the cursor is accepted only from the beginning
    simp only [validPull, Bool.and_eq_true, Bool.not_eq_true', Bool.and_eq_false_iff, bne_eq_false_iff_eq,
      Bool.not_eq_false', decide_eq_true_eq] at valid
    obtain ⟨⟨⟨⟨⟨⟨⟨⟨_, fresh⟩, stale⟩, _⟩, _⟩, _⟩, _⟩, _⟩, _⟩ := valid
    rcases stale with (baseline | zero) | cursor
    · rcases fresh with baseline' | zero
      · rw [baseline] at baseline'
        cases baseline'
      · exact .inl zero
    · exact .inl zero
    · exact .inr cursor

end Merge

theorem Tracked.merge (ideal : P.Ideal) {log : List Envelope} {world : World} {device : String}
    {since : Nat} {response : PullResponse} (tracked : Tracked P keys log world)
    (sent : (device, since, response) ∈ world.pulls) :
    Tracked P keys log (world.setDevice device
      (mergeSpace P keys (world.device device) response since .Compatible).section_) := by
  have before := tracked.device device
  have pulled := tracked.pulls device since response sent
  -- a gate that is not compatible leaves the device as it was
  by_cases admitted : (mergeSpace P keys (world.device device) response since .Compatible).gate = .Compatible
  case neg =>
    rw [mergeSpace_incompatible admitted]
    exact tracked.setDevice before (fun key row found => ⟨row, found, le_refl _⟩)
      (fun key row found => .inl (.held found))
  obtain ⟨empty, cursor, merged, slots, asked⟩ :=
    mergeSpace_slots ideal tracked.explained before pulled admitted
  generalize (mergeSpace P keys (world.device device) response since .Compatible).section_ = after at *
  have slotId : ∀ {id : String} {row : LocalRecord},
      (world.device device).records[recordKey .Host id]? = some row → row.record.id = id :=
    fun found => (recordKey_injective (before.rows _ _ found).1).2.symm
  -- every slot is as before, or holds the merge of its row with one from the relay
  refine tracked.setDevice ⟨empty, ?_, ?_, ?_, ?_, ?_, ?_⟩ ?_ ?_
  · intro key row found
    rcases slots key with same | ⟨entry, member, remote, opened, host, rfl, slot⟩
    · exact before.rows key row (same ▸ found)
    · cases slot.symm.trans found
      rcases mergedRow_cases (world.device device).records[recordKey .Host remote.id]? remote entry.seq with
        ⟨taken, _⟩ | ⟨old, held, _, kept⟩
      · rw [taken]
        exact ⟨rfl, host⟩
      · rw [kept]
        exact before.rows _ old held
  · intro key row found
    rcases slots key with same | ⟨entry, member, remote, opened, host, rfl, slot⟩
    · exact before.origin key row (same ▸ found)
    · cases slot.symm.trans found
      rcases mergedRow_cases (world.device device).records[recordKey .Host remote.id]? remote entry.seq with
        ⟨taken, _⟩ | ⟨old, held, _, kept⟩
      · rw [taken]
        exact .inr ⟨entry, member, remote, opened, rfl, rfl⟩
      · rw [kept]
        rcases max_choice old.seq entry.seq with larger | larger <;> simp only [larger]
        · exact before.origin _ old held
        · exact .inr ⟨entry, member, remote, opened, (slotId held).symm, rfl⟩
  · intro key row found
    rcases slots key with same | ⟨entry, member, remote, opened, host, rfl, slot⟩
    · exact before.covers key row (same ▸ found)
    · cases slot.symm.trans found
      exact mergedRow_covers tracked.explained member opened fun old held =>
        ⟨slotId held, before.covers _ old held⟩
  · intro key row found clean
    rcases slots key with same | ⟨entry, member, remote, opened, host, rfl, slot⟩
    · exact before.clean key row (same ▸ found) clean
    · cases slot.symm.trans found
      rcases mergedRow_cases (world.device device).records[recordKey .Host remote.id]? remote entry.seq with
        ⟨taken, _⟩ | ⟨old, held, _, kept⟩
      · rw [taken]
        exact ⟨entry, member, opened⟩
      · rw [kept] at clean ⊢
        exact before.clean _ old held clean
  · rw [cursor]
    exact pulled.bounded
  · intro entry member record opened below
    by_cases fresh : since < entry.seq
    · -- The pull brought this row or a newer one of the same host.
      obtain ⟨row, inPull, hash, newer⟩ := pulled.complete entry member fresh (cursor ▸ below)
      obtain ⟨remote, openedRow, _⟩ := tracked.explained.opens row (pulled.logged row inPull)
      have ids := id_eq_of_idHash ideal openedRow opened hash
      rw [← ids]
      exact ⟨_, merged row inPull remote openedRow, le_trans newer (le_mergedRow_seq _ _ _)⟩
    · -- The device had seen it before it asked.
      have known : entry.seq ≤ (world.device device).cursorSeq := by
        rcases asked with zero | same
        · have := (tracked.explained.range entry member).1
          omega
        · omega
      obtain ⟨old, held, newer⟩ := before.seen entry member record opened known
      rcases slots (recordKey .Host record.id) with same | ⟨arrived, logged, remote, openedRow, _, ids, slot⟩
      · exact ⟨old, same.trans held, newer⟩
      · rw [held] at slot
        have ids := (recordKey_injective ids).2
        exact ⟨_, slot, le_trans newer
          (mergedRow_ahead (before.covers _ old held) logged openedRow (ids ▸ (slotId held).symm)).1⟩
  · intro key row found
    rcases slots key with same | ⟨entry, member, remote, opened, _, rfl, slot⟩
    · exact ⟨row, same.trans found, le_refl _⟩
    · rw [found] at slot
      exact ⟨_, slot, (mergedRow_ahead (before.covers _ row found) member opened (slotId found).symm).2⟩
  · intro key row found
    left
    rcases slots key with same | ⟨entry, member, remote, opened, host, rfl, slot⟩
    · exact .held (same ▸ found)
    · cases slot.symm.trans found
      rcases mergedRow_cases (world.device device).records[recordKey .Host remote.id]? remote entry.seq with
        ⟨taken, _⟩ | ⟨old, held, _, kept⟩
      · rw [taken]
        exact .logged member opened
      · rw [kept]
        show Revision P keys log world old.record
        exact .held held

end

end Sshelter.Sync
