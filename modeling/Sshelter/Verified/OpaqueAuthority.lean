import Sshelter.Sync.Groups.Edit
import Sshelter.Verified.Hosts
import Sshelter.Verified.PlainPrimitives

/-! # Retained envelopes keep their authority

A retained envelope that wins over the cached row of its record is the record's
authority: local edits must leave that row alone.  Each edit is followed through
the rows it writes.  Two writes are made without asking: the row `move_host` puts
into its destination, and the pins `finish` clears after a group edit.
-/

namespace Sshelter.Sync

/-- A section of the state that holds both cached rows and retained envelopes. -/
inductive Place where
  | Account
  | Space (spaceId : String)
deriving DecidableEq, Repr

namespace SyncStateV3

def recordsAt (state : SyncStateV3) : Place → BTreeMap LocalRecord
  | .Account => (state.account.map (·.records)).getD ∅
  | .Space spaceId => state.spaceRecords spaceId

def sealedAt (state : SyncStateV3) : Place → BTreeMap SealedRecord
  | .Account => (state.account.map (·.sealed)).getD ∅
  | .Space spaceId => state.spaceSealed spaceId

/-- Some retained envelope of the place wins over the cached row of the record. -/
def shadowedAt (state : SyncStateV3) (place : Place) (kind : RecordKind) (id : String) : Bool :=
  shadowed (state.sealedAt place) (state.recordsAt place)[recordKey kind id]? kind id

end SyncStateV3

/-- Every envelope that shadows a cached row still shadows it afterwards, and the row is the
same. -/
def KeepsAuthority (before after : SyncStateV3) : Prop :=
  ∀ place kind id (key : String) envelope, (before.sealedAt place)[key]? = some envelope →
    opaqueShadows envelope (before.recordsAt place)[recordKey kind id]? kind id = true →
    (after.sealedAt place)[key]? = some envelope ∧
      opaqueShadows envelope (after.recordsAt place)[recordKey kind id]? kind id = true ∧
      (after.recordsAt place)[recordKey kind id]? = (before.recordsAt place)[recordKey kind id]?

/-- The rows of shadowed records are unchanged and no envelope is touched. -/
structure Spares (before after : SyncStateV3) : Prop where
  sealed : ∀ place, after.sealedAt place = before.sealedAt place
  rows : ∀ place kind id, before.shadowedAt place kind id = true →
    (after.recordsAt place)[recordKey kind id]? = (before.recordsAt place)[recordKey kind id]?

theorem shadowed_iff {sealed : BTreeMap SealedRecord} {row : Option LocalRecord} {kind : RecordKind}
    {id : String} : shadowed sealed row kind id = true ↔
      ∃ (key : String) (envelope : SealedRecord), sealed[key]? = some envelope ∧
        opaqueShadows envelope row kind id = true := by
  simp only [shadowed, List.any_eq_true, BTreeMap.mem_values]
  constructor
  · rintro ⟨envelope, ⟨key, held⟩, wins⟩
    exact ⟨key, envelope, held, wins⟩
  · rintro ⟨key, envelope, held, wins⟩
    exact ⟨envelope, ⟨key, held⟩, wins⟩

theorem Spares.keepsAuthority {before after : SyncStateV3} (spares : Spares before after) :
    KeepsAuthority before after := by
  intro place kind id key envelope held wins
  have same := spares.rows place kind id (shadowed_iff.mpr ⟨key, envelope, held, wins⟩)
  refine ⟨by rw [spares.sealed]; exact held, ?_, same⟩
  rw [same]
  exact wins

/-- Authority is lost as soon as one shadowed row changes. -/
theorem not_keepsAuthority {before after : SyncStateV3} {place : Place} {kind : RecordKind} {id : String}
    (hidden : before.shadowedAt place kind id = true)
    (changed : (after.recordsAt place)[recordKey kind id]? ≠ (before.recordsAt place)[recordKey kind id]?) :
    ¬ KeepsAuthority before after := by
  intro keeps
  obtain ⟨key, envelope, held, wins⟩ := shadowed_iff.mp hidden
  exact changed (keeps place kind id key envelope held wins).2.2

theorem Spares.refl (state : SyncStateV3) : Spares state state := ⟨fun _ => rfl, fun _ _ _ _ => rfl⟩

theorem Spares.shadowedAt {before after : SyncStateV3} (spares : Spares before after) {place : Place}
    {kind : RecordKind} {id : String} (hidden : before.shadowedAt place kind id = true) :
    after.shadowedAt place kind id = true := by
  rw [SyncStateV3.shadowedAt, spares.sealed, spares.rows place kind id hidden]
  exact hidden

theorem Spares.trans {first second third : SyncStateV3} (left : Spares first second)
    (right : Spares second third) : Spares first third where
  sealed place := (right.sealed place).trans (left.sealed place)
  rows place kind id hidden :=
    (right.rows place kind id (left.shadowedAt hidden)).trans (left.rows place kind id hidden)

/-! ## Single writes -/

section Write
variable {before state : SyncStateV3} {kind : RecordKind} {id : String} {row : LocalRecord}

theorem sealedAt_setSpaceRow {spaceId key : String} (place : Place) :
    (state.setSpaceRow spaceId key row).sealedAt place = state.sealedAt place := by
  unfold SyncStateV3.setSpaceRow
  cases found : state.spaces[spaceId]? with
  | none => rfl
  | some space =>
    cases place with
    | Account => rfl
    | Space other =>
      by_cases same : spaceId = other
      · subst same
        simp [SyncStateV3.sealedAt, SyncStateV3.spaceSealed, found]
      · simp [SyncStateV3.sealedAt, SyncStateV3.spaceSealed, BTreeMap.get?_insert_ne _ _ same]

theorem recordsAt_setSpaceRow_ne {spaceId key key' : String} {place : Place}
    (apart : (Place.Space spaceId, key) ≠ (place, key')) :
    ((state.setSpaceRow spaceId key row).recordsAt place)[key']? = (state.recordsAt place)[key']? := by
  cases place with
  | Account =>
    unfold SyncStateV3.setSpaceRow
    cases state.spaces[spaceId]? <;> rfl
  | Space other =>
    apply spaceRecords_setSpaceRow_ne
    intro same
    cases same
    exact apart rfl

/-- Writing a row that no envelope shadows. -/
theorem Spares.setSpaceRow (spares : Spares before state) {spaceId : String}
    (free : before.shadowedAt (.Space spaceId) kind id = false) :
    Spares before (state.setSpaceRow spaceId (recordKey kind id) row) where
  sealed place := (sealedAt_setSpaceRow place).trans (spares.sealed place)
  rows place kind' id' hidden := by
    rw [recordsAt_setSpaceRow_ne, spares.rows place kind' id' hidden]
    intro same
    obtain ⟨rfl, keys⟩ := Prod.mk.inj same
    obtain ⟨rfl, rfl⟩ := recordKey_injective keys
    rw [free] at hidden
    cases hidden

theorem Spares.setAccountRow (spares : Spares before state)
    (free : before.shadowedAt .Account kind id = false) :
    Spares before (state.setAccountRow (recordKey kind id) row) := by
  unfold SyncStateV3.setAccountRow
  cases found : state.account with
  | none => exact spares
  | some account =>
    refine ⟨fun place => ?_, fun place kind' id' hidden => ?_⟩
    · rw [← spares.sealed place]
      cases place with
      | Account => simp [SyncStateV3.sealedAt, found]
      | Space spaceId => rfl
    · rw [← spares.rows place kind' id' hidden]
      cases place with
      | Space spaceId => rfl
      | Account =>
        have other : recordKey kind id ≠ recordKey kind' id' := by
          intro same
          obtain ⟨rfl, rfl⟩ := recordKey_injective same
          rw [free] at hidden
          cases hidden
        simp [SyncStateV3.recordsAt, found, BTreeMap.get?_insert_ne _ _ other]

/-- The sections are all that counts. -/
theorem Spares.of_sections {state' : SyncStateV3} (spares : Spares before state)
    (account : state'.account = state.account) (spaces : state'.spaces = state.spaces) :
    Spares before state' := by
  have same : ∀ place, state'.recordsAt place = state.recordsAt place ∧
      state'.sealedAt place = state.sealedAt place := by
    intro place
    cases place with
    | Account => simp [SyncStateV3.recordsAt, SyncStateV3.sealedAt, account]
    | Space spaceId =>
      simp [SyncStateV3.recordsAt, SyncStateV3.sealedAt, SyncStateV3.spaceRecords,
        SyncStateV3.spaceSealed, spaces]
  refine ⟨fun place => ?_, fun place kind id hidden => ?_⟩
  · rw [(same place).2, spares.sealed]
  · rw [(same place).1, spares.rows place kind id hidden]

/-- The record of the scope is not shadowed; nothing shadows a record of this device. -/
def FreeIn (state : SyncStateV3) (scope : HostScope) (kind : RecordKind) (id : String) : Prop :=
  ∀ spaceId, scope = .Space spaceId → state.shadowedAt (.Space spaceId) kind id = false

theorem Spares.setHostRow (spares : Spares before state) {scope : HostScope}
    (free : FreeIn before scope kind id) :
    Spares before (state.setHostRow scope (recordKey kind id) row) := by
  cases scope with
  | «Local» => exact spares.of_sections rfl rfl
  | Space spaceId => exact spares.setSpaceRow (free spaceId rfl)

theorem Spares.setGroupRow (spares : Spares before state) {scope : HostScope}
    (free : FreeIn before scope kind id) :
    Spares before (state.setGroupRow scope (recordKey kind id) row) := by
  cases scope with
  | «Local» => exact spares.of_sections rfl rfl
  | Space spaceId => exact spares.setSpaceRow (free spaceId rfl)

end Write

/-! ## Host edits -/

section Host
variable {P : Primitives} {state next : SyncStateV3}

theorem freeIn_of_authority {host : HostRecord} (allowed : ensureHostAuthority state host = .ok ()) :
    FreeIn state host.scope .Host host.id := by
  intro spaceId scope
  rw [ensureHostAuthority, scope] at allowed
  exact Result.refuse_eq_ok.mp allowed

theorem getHost_id {id : String} {view : HostView} (found : getHost P state id = .ok view) :
    view.host.id = id := by
  obtain ⟨hosts, _, found⟩ := Result.bind_eq_ok.mp found
  obtain ⟨index, at_, found⟩ := Result.bind_eq_ok.mp found
  obtain ⟨other, shown, named⟩ := hostIndex_id (Result.mapError_eq_ok.mp at_)
  simp only [shown] at found
  cases found
  exact named

theorem checkedHost_free {id : String} {expected : RecordRevision} {view : HostView}
    (checked : checkedHost P state id expected = .ok view) : FreeIn state view.host.scope .Host id := by
  obtain ⟨found, gotten, checked⟩ := Result.bind_eq_ok.mp checked
  rw [Result.check_eq_ok, Result.check_eq_ok, Result.check_eq_ok] at checked
  obtain ⟨_, _, allowed, same⟩ := checked
  cases same
  rw [← getHost_id gotten]
  exact freeIn_of_authority allowed

theorem replaceRow_spares {scope : HostScope} {id : String} {payload : Json} {deleted : Bool} {now : Nat}
    (free : FreeIn state scope .Host id)
    (replaced : replaceRow P state scope id payload deleted now = .ok next) : Spares state next := by
  simp only [replaceRow] at replaced
  split at replaced
  · cases replaced
  · obtain ⟨record, _, replaced⟩ := Result.bind_eq_ok.mp replaced
    rw [Result.check_eq_ok] at replaced
    obtain ⟨_, same⟩ := replaced
    cases same
    exact (Spares.refl state).setHostRow free

theorem updateHost_spares {id : String} {expected : RecordRevision} {payload : HostPayload} {now : Nat}
    (updated : updateHost P state id expected payload now = .ok next) : Spares state next := by
  obtain ⟨view, checked, updated⟩ := Result.bind_eq_ok.mp updated
  rw [Result.check_eq_ok] at updated
  obtain ⟨effective, _, updated⟩ := Result.bind_eq_ok.mp updated.2
  rw [Result.check_eq_ok] at updated
  exact replaceRow_spares (checkedHost_free checked) updated.2

theorem deleteHost_spares {id : String} {expected : RecordRevision} {now : Nat}
    (deleted : deleteHost P state id expected now = .ok next) : Spares state next := by
  obtain ⟨view, checked, deleted⟩ := Result.bind_eq_ok.mp deleted
  exact replaceRow_spares (checkedHost_free checked) deleted

theorem forgetHostKey_spares {id : String} {expected : RecordRevision} {endpoint : HostEndpoint}
    {pin : StoredHostKey} {now : Nat}
    (forgotten : forgetHostKey P state id expected endpoint pin now = .ok next) : Spares state next := by
  obtain ⟨view, checked, forgotten⟩ := Result.bind_eq_ok.mp forgotten
  rw [Result.check_eq_ok, Result.check_eq_ok] at forgotten
  exact replaceRow_spares (checkedHost_free checked) forgotten.2.2

theorem pinHostKey_spares {id : String} {endpoint : HostEndpoint} {previous : Option StoredHostKey}
    {candidate : StoredHostKey} {now : Nat}
    (pinned : pinHostKey P state id endpoint previous candidate now = .ok next) : Spares state next := by
  obtain ⟨view, found, pinned⟩ := Result.bind_eq_ok.mp pinned
  rw [Result.check_eq_ok, Result.check_eq_ok, Result.check_eq_ok] at pinned
  obtain ⟨_, allowed, _, pinned⟩ := pinned
  have free := freeIn_of_authority allowed
  rw [getHost_id found] at free
  simp only at pinned
  split at pinned
  · cases pinned
    exact Spares.refl state
  · rw [Result.check_eq_ok, Result.check_eq_ok] at pinned
    exact replaceRow_spares free pinned.2.2

/-- No retained envelope of a space names the record. -/
def Unnamed (state : SyncStateV3) (id : String) : Prop :=
  ∀ (spaceId key : String) (envelope : SealedRecord), (state.spaceSealed spaceId)[key]? = some envelope →
    ∀ identity, envelope.publicIdentity = some identity → identity.id ≠ id

theorem freeIn_of_unnamed {id : String} (unnamed : Unnamed state id) (scope : HostScope)
    (kind : RecordKind) : FreeIn state scope kind id := by
  intro spaceId _
  rw [← Bool.not_eq_true]
  intro hidden
  obtain ⟨key, envelope, held, wins⟩ := shadowed_iff.mp hidden
  unfold opaqueShadows at wins
  split at wins
  · cases wins
  · rename_i identity named
    simp only [Bool.and_eq_true, beq_iff_eq] at wins
    exact unnamed spaceId key envelope held identity named wins.1.1.2

theorem createHost_spares {id : String} {scope : HostScope} {payload : HostPayload} {now : Nat}
    (unnamed : Unnamed state id) (created : createHost P state id scope payload now = .ok next) :
    Spares state next := by
  rw [createHost, Result.check_eq_ok, Result.check_eq_ok] at created
  obtain ⟨_, _, created⟩ := created
  rw [Result.check_eq_ok, Result.check_eq_ok] at created
  obtain ⟨record, _, created⟩ := Result.bind_eq_ok.mp created.2.2
  rw [Result.check_eq_ok] at created
  obtain ⟨_, same⟩ := created
  cases same
  exact (Spares.refl state).setHostRow (freeIn_of_unnamed unnamed scope .Host)

/-- What a move between two scopes writes. -/
theorem moveHost_cases {id : String} {expected : RecordRevision} {destination : HostScope} {now : Nat}
    (moved : moveHost P state id expected destination now = .ok next) :
    ∃ origin, FreeIn state origin .Host id ∧ ensureScope state destination = .ok () ∧
      (next = state ∧ origin = destination ∨
        ∃ source record seq, (∀ row, (state.hostRecords destination)[recordKey .Host id]? = some row →
            row.record.version < record.version) ∧
          next = (state.setHostRow origin (recordKey .Host id) source).setHostRow destination
            (recordKey .Host id) (cachedRow record seq destination)) := by
  obtain ⟨view, checked, moved⟩ := Result.bind_eq_ok.mp moved
  rw [Result.check_eq_ok] at moved
  obtain ⟨open_, moved⟩ := moved
  refine ⟨view.host.scope, checkedHost_free checked, open_, ?_⟩
  simp only at moved
  split at moved
  · rename_i same
    cases moved
    exact .inl ⟨rfl, same⟩
  · rw [Result.check_eq_ok, Result.check_eq_ok] at moved
    obtain ⟨_, _, moved⟩ := moved
    split at moved
    · cases moved
    · obtain ⟨effective, _, moved⟩ := Result.bind_eq_ok.mp moved
      obtain ⟨record, ordered, moved⟩ := Result.bind_eq_ok.mp moved
      rw [Result.check_eq_ok] at moved
      obtain ⟨_, same⟩ := moved
      cases same
      refine .inr ⟨_, record, _, fun row held => ?_, rfl⟩
      obtain ⟨_, _, _, _, _, _, later⟩ := orderedRecord_spec ordered
      refine (later row.record ?_).1
      simp [held]

/-- A move keeps authority exactly when nothing shadows the record in the destination. -/
theorem moveHost_keeps_iff {id : String} {expected : RecordRevision} {destination : HostScope}
    {now : Nat} (moved : moveHost P state id expected destination now = .ok next) :
    KeepsAuthority state next ↔ FreeIn state destination .Host id := by
  obtain ⟨origin, freeOrigin, open_, ⟨rfl, rfl⟩ | ⟨source, record, seq, later, rfl⟩⟩ := moveHost_cases moved
  · exact ⟨fun _ => freeOrigin, fun _ => (Spares.refl next).keepsAuthority⟩
  · constructor
    · intro keeps spaceId here
      rw [← Bool.not_eq_true]
      intro hidden
      subst here
      refine not_keepsAuthority hidden ?_ keeps
      -- The destination takes the new revision, which is not the one that was there.
      have written : (((state.setHostRow origin (recordKey .Host id) source).setHostRow (.Space spaceId)
          (recordKey .Host id) (cachedRow record seq (.Space spaceId))).recordsAt
            (.Space spaceId))[recordKey .Host id]? = some (cachedRow record seq (.Space spaceId)) := by
        obtain ⟨space, found⟩ : ∃ space,
            (state.setHostRow origin (recordKey .Host id) source).spaces[spaceId]? = some space := by
          have available : ∃ space, state.spaces[spaceId]? = some space := by
            simp only [ensureScope, Result.check_eq_ok] at open_
            cases found : state.spaces[spaceId]? with
            | none => simp [found] at open_
            | some space => exact ⟨space, rfl⟩
          obtain ⟨space, found⟩ := available
          cases origin with
          | «Local» => exact ⟨space, found⟩
          | Space other =>
            simp only [SyncStateV3.setHostRow, SyncStateV3.setSpaceRow]
            split
            · exact ⟨space, found⟩
            · by_cases same : other = spaceId
              · subst same
                exact ⟨_, BTreeMap.get?_insert_self _ _ _⟩
              · exact ⟨space, (BTreeMap.get?_insert_ne _ _ same).trans found⟩
        exact spaceRecords_setSpaceRow_self found
      rw [written]
      intro same
      exact lt_irrefl _ (later _ same.symm)
    · intro free
      exact (((Spares.refl state).setHostRow freeOrigin).setHostRow free).keepsAuthority

end Host

/-! ## Key and navigation edits -/

section Account
variable {P : Primitives} {state next : SyncStateV3}

/-- Every view is filed under its own id. -/
def Filed (views : BTreeMap KeyView) : Prop := ∀ (id : String) view, views[id]? = some view → view.id = id

theorem Filed.insert {views : BTreeMap KeyView} (filed : Filed views) {id : String} {view : KeyView}
    (named : view.id = id) : Filed (views.insert id view) := by
  intro other found held
  rw [BTreeMap.get?_insert] at held
  split at held
  · rename_i same
    cases held
    rw [named, same]
  · exact filed other found held

theorem localKey_id {id : String} {material : LocalKeyMetadata} {view : KeyView}
    (read : localKey P id material = .ok view) : view.id = id := by
  rw [localKey, Result.check_eq_ok, Result.check_eq_ok] at read
  obtain ⟨_, _, same⟩ := read
  cases same
  rfl

theorem accountKey_id {keys : BTreeMap LocalKeyMetadata} {record : Record} {view : KeyView}
    (read : accountKey P keys record = .ok view) : view.id = record.id := by
  obtain ⟨decoded, _, read⟩ := Result.bind_eq_ok.mp read
  cases decoded with
  | Tombstone id => cases read; rfl
  | Live slot => cases read; rfl

theorem shadowKey_filed {records : BTreeMap LocalRecord} {views : BTreeMap KeyView}
    {sealed : SealedRecord} (filed : Filed views) : Filed (shadowKey records views sealed) := by
  unfold shadowKey
  split
  · exact filed
  · split
    · exact filed
    · rename_i view found
      split
      · exact filed.insert (filed _ view found)
      · exact filed

/-- A key in conflict stays in conflict, and a key whose envelope shadows it is in conflict. -/
theorem shadowKey_conflict {records : BTreeMap LocalRecord} {views : BTreeMap KeyView}
    {sealed : SealedRecord} {id : String} {view : KeyView}
    (found : (shadowKey records views sealed)[id]? = some view) :
    ∃ before, views[id]? = some before ∧
      (before.status = .Conflict ∨
        opaqueShadows sealed records[recordKey .KeySlot id]? .KeySlot id = true →
      view.status = .Conflict) := by
  unfold shadowKey at found
  split at found
  · -- an envelope without a verified identity shadows nothing
    rename_i unnamed
    refine ⟨view, found, ?_⟩
    rintro (conflict | hidden)
    · exact conflict
    · simp [opaqueShadows, unnamed] at hidden
  · rename_i identity named
    have other : identity.id ≠ id → opaqueShadows sealed records[recordKey .KeySlot id]? .KeySlot id = false := by
      intro apart
      simp [opaqueShadows, named, apart]
    split at found
    · -- a key that is not shown is not marked
      rename_i absent
      refine ⟨view, found, ?_⟩
      rintro (conflict | hidden)
      · exact conflict
      · rw [other] at hidden
        · cases hidden
        · rintro rfl
          rw [absent] at found
          cases found
    · rename_i old held
      split at found
      · rw [BTreeMap.get?_insert] at found
        split at found
        · rename_i same
          cases found
          rw [same] at held
          exact ⟨old, held, fun _ => rfl⟩
        · rename_i apart
          refine ⟨view, found, ?_⟩
          rintro (conflict | hidden)
          · exact conflict
          · rw [other apart] at hidden
            cases hidden
      · -- the envelope does not shadow its key, so the views stay as they are
        rename_i clear
        refine ⟨view, found, ?_⟩
        rintro (conflict | hidden)
        · exact conflict
        · by_cases same : identity.id = id
          · rw [same] at clear
            exact absurd hidden clear
          · rw [other same] at hidden
            cases hidden

theorem shadowKeys_conflict {records : BTreeMap LocalRecord} {sealed : List SealedRecord}
    {views : BTreeMap KeyView} {id : String} {view : KeyView}
    (found : (sealed.foldl (shadowKey records) views)[id]? = some view) :
    ∃ before, views[id]? = some before ∧
      ((before.status = .Conflict ∨ ∃ envelope ∈ sealed,
        opaqueShadows envelope records[recordKey .KeySlot id]? .KeySlot id = true) →
      view.status = .Conflict) := by
  induction sealed generalizing views with
  | nil =>
    refine ⟨view, found, ?_⟩
    rintro (conflict | ⟨_, member, _⟩)
    · exact conflict
    · cases member
  | cons first rest ih =>
    obtain ⟨middle, held, later⟩ := ih found
    obtain ⟨before, held, earlier⟩ := shadowKey_conflict held
    refine ⟨before, held, ?_⟩
    rintro (conflict | ⟨envelope, member, wins⟩)
    · exact later (.inl (earlier (.inl conflict)))
    · rcases List.mem_cons.mp member with rfl | member
      · exact later (.inl (earlier (.inr wins)))
      · exact later (.inr ⟨envelope, member, wins⟩)

theorem shadowKeys_filed {records : BTreeMap LocalRecord} {sealed : List SealedRecord}
    {views : BTreeMap KeyView} (filed : Filed views) : Filed (sealed.foldl (shadowKey records) views) := by
  induction sealed generalizing views with
  | nil => exact filed
  | cons first rest ih => exact ih (shadowKey_filed filed)

theorem deviceKeys_filed {keys : BTreeMap LocalKeyMetadata} {views : BTreeMap KeyView}
    (read : keys.toList.foldlM (fun (views : BTreeMap KeyView) (id, material) => do
      return views.insert id (← localKey P id material)) ∅ = .ok views) : Filed views := by
  refine Result.foldlM_invariant (fun _ views => Filed views) ?_ ?_ read
  · intro id view held
    simp at held
  · intro _ views entry _ views' _ filed step
    obtain ⟨view, read, same⟩ := Result.bind_eq_ok.mp step
    cases same
    exact filed.insert (localKey_id read)

theorem accountKeys_filed {keys : BTreeMap LocalKeyMetadata} {records : BTreeMap LocalRecord}
    {views views' : BTreeMap KeyView} (filed : Filed views)
    (read : records.toList.foldlM (addAccountKey P keys) views = .ok views') : Filed views' := by
  refine Result.foldlM_invariant (fun _ views => Filed views) filed ?_ read
  rintro _ views ⟨key, row⟩ _ views' _ filed step
  rw [addAccountKey, Result.check_eq_ok, Result.check_eq_ok] at step
  obtain ⟨_, _, step⟩ := step
  split at step
  · cases step
    exact filed
  · obtain ⟨view, read, same⟩ := Result.bind_eq_ok.mp step
    cases same
    exact filed.insert (accountKey_id read)

/-- A listed key whose slot is shadowed is in conflict. -/
theorem listKeys_conflict {keys : List KeyView} {view : KeyView} (listed : listKeys P state = .ok keys)
    (member : view ∈ keys) (hidden : state.shadowedAt .Account .KeySlot view.id = true) :
    view.status = .Conflict := by
  rw [listKeys, Result.check_eq_ok] at listed
  obtain ⟨_, listed⟩ := listed
  obtain ⟨views, device, listed⟩ := Result.bind_eq_ok.mp listed
  have filed := deviceKeys_filed device
  cases joined : state.account with
  | none =>
    obtain ⟨key, envelope, held, _⟩ := shadowed_iff.mp hidden
    simp [SyncStateV3.sealedAt, joined] at held
  | some account =>
    simp only [joined] at listed
    obtain ⟨views', read, same⟩ := Result.bind_eq_ok.mp listed
    cases same
    obtain ⟨id, held⟩ := BTreeMap.mem_values.mp member
    obtain rfl := shadowKeys_filed (accountKeys_filed filed read) id view held
    obtain ⟨before, _, conflict⟩ := shadowKeys_conflict held
    apply conflict
    right
    obtain ⟨key, envelope, held, wins⟩ := shadowed_iff.mp hidden
    simp only [SyncStateV3.sealedAt, SyncStateV3.recordsAt, joined, Option.map_some,
      Option.getD_some] at held wins
    exact ⟨envelope, BTreeMap.mem_values.mpr ⟨key, held⟩, wins⟩

theorem renameKey_spares {id : String} {expected : KeySlotPayload} {name : String} {now : Nat}
    (renamed : renameKey P state id expected name now = .ok next) : Spares state next := by
  rw [renameKey, Result.check_eq_ok] at renamed
  obtain ⟨_, renamed⟩ := renamed
  obtain ⟨key, resolved, renamed⟩ := Result.bind_eq_ok.mp renamed
  rw [Result.check_eq_ok, Result.check_eq_ok, Result.check_eq_ok] at renamed
  obtain ⟨settled, _, _, renamed⟩ := renamed
  have named : ∃ keys, listKeys P state = .ok keys ∧ key ∈ keys ∧ key.id = id := by
    obtain ⟨keys, listed, resolved⟩ := Result.bind_eq_ok.mp resolved
    split at resolved
    · rename_i found
      cases resolved
      exact ⟨keys, listed, List.mem_of_find?_eq_some found, by simpa using List.find?_some found⟩
    · cases resolved
  obtain ⟨keys, listed, member, rfl⟩ := named
  split at renamed
  · cases renamed
    exact Spares.refl state
  · rw [Result.check_eq_ok] at renamed
    have written := renamed.2
    have labelled : ∀ middle, Spares state middle →
        Spares state (renameLocalKey middle key.id (Text.trim name)) := by
      intro middle spares
      unfold renameLocalKey
      split
      · exact spares
      · exact spares.of_sections rfl rfl
    split at written
    · obtain ⟨middle, renames, same⟩ := Result.bind_eq_ok.mp written
      cases same
      apply labelled
      unfold renameAccountKey at renames
      simp only at renames
      split at renames
      · cases renames
      · obtain ⟨record, _, wrote⟩ := Result.bind_eq_ok.mp renames
        cases wrote
        apply (Spares.refl state).setAccountRow
        -- A shadowed slot would have been listed in conflict.
        rw [← Bool.not_eq_true]
        intro hidden
        have conflict := listKeys_conflict listed member hidden
        simp [conflict] at settled
    · cases written
      exact labelled state (Spares.refl state)

theorem setGroupOrder_spares {expectedIds ids : List String} {expected : Option RecordRevision} {now : Nat}
    (ordered : setGroupOrder state expectedIds expected ids now = .ok next) : Spares state next := by
  rw [setGroupOrder, Result.check_eq_ok, Result.check_eq_ok, Result.check_eq_ok] at ordered
  obtain ⟨unblocked, _, _, ordered⟩ := ordered
  obtain ⟨groups, _, ordered⟩ := Result.bind_eq_ok.mp ordered
  rw [Result.check_eq_ok] at ordered
  obtain ⟨_, ordered⟩ := ordered
  split at ordered
  · cases ordered
    exact Spares.refl state
  · cases joined : state.account with
    | none =>
      simp only [joined] at ordered
      cases ordered
      exact (Spares.refl state).of_sections joined.symm rfl
    | some account =>
      simp only [joined] at ordered
      obtain ⟨record, _, ordered⟩ := Result.bind_eq_ok.mp ordered
      cases ordered
      have free : state.shadowedAt .Account .Meta groupOrderId = false := by
        have open_ := Result.refuse_eq_ok.mp unblocked
        simp only [orderView, joined, Bool.or_eq_false_iff] at open_
        simpa [SyncStateV3.shadowedAt, SyncStateV3.sealedAt, SyncStateV3.recordsAt, joined] using open_.1
      refine Spares.setAccountRow ?_ free
      exact (Spares.refl state).of_sections joined.symm rfl

end Account

/-! ## Group edits before their pins are cleared -/

section Group
variable {P : Primitives} {state next : SyncStateV3}

/-- The account marker is never shadowed: no retained envelope is about it. -/
theorem marker_free : state.shadowedAt .Account .Meta accountMetaId = false := by
  rw [← Bool.not_eq_true]
  intro hidden
  obtain ⟨_, envelope, _, wins⟩ := shadowed_iff.mp hidden
  unfold opaqueShadows at wins
  split at wins
  · cases wins
  · rename_i identity _
    simp only [Bool.and_eq_true, beq_iff_eq] at wins
    obtain ⟨⟨⟨valid, named⟩, kind⟩, _⟩ := wins
    simp only [VerifiedPublicIdentity.isValidFor, Bool.and_eq_true, kind, named] at valid
    exact absurd valid.1.1.1 (by decide)

theorem promote_spares {scope : HostScope} {confirmed : Bool} {now : Nat}
    (promoted : promote state scope confirmed now = .ok next) : Spares state next := by
  rw [promote, Result.check_eq_ok] at promoted
  obtain ⟨_, promoted⟩ := promoted
  simp only at promoted
  split at promoted
  · cases promoted
    exact (Spares.refl state).of_sections rfl rfl
  · split at promoted
    · cases promoted
    · obtain ⟨record, _, promoted⟩ := Result.bind_eq_ok.mp promoted
      cases promoted
      refine Spares.setAccountRow ?_ marker_free
      exact (Spares.refl state).of_sections rfl rfl

theorem freeIn_of_group {scope : HostScope} {id : String} {found : GroupRecord}
    (read : group state scope id = .ok found) : FreeIn state scope .Group id := by
  intro spaceId here
  subst here
  obtain ⟨rows, records, read⟩ := Result.bind_eq_ok.mp read
  rw [Result.check_eq_ok] at read
  have free := Result.refuse_eq_ok.mp read.1
  have same : rows = state.spaceRecords spaceId := by
    simp only [groupRecords] at records
    split at records
    · rename_i space kept
      cases records
      rw [Option.filter_eq_some_iff] at kept
      simp [SyncStateV3.spaceRecords, kept.1]
    · cases records
  rw [same] at free
  exact free

theorem putGroup_spares {origin : SyncStateV3} {scope : HostScope} {id : String} {payload : Json}
    {deleted : Bool} {now : Nat} (spares : Spares origin state) (free : FreeIn origin scope .Group id)
    (put : putGroup origin state scope id payload deleted now = .ok next) : Spares origin next := by
  obtain ⟨rows, _, put⟩ := Result.bind_eq_ok.mp put
  split at put
  · cases put
  · obtain ⟨record, _, put⟩ := Result.bind_eq_ok.mp put
    cases put
    exact spares.setGroupRow free

theorem checkedGroup_free {id : String} {expected : RecordRevision} {view : GroupView}
    (checked : checkedGroup state id expected = .ok view) : FreeIn state view.group.scope .Group id := by
  obtain ⟨all, _, checked⟩ := Result.bind_eq_ok.mp checked
  split at checked
  · cases checked
  · rw [Result.check_eq_ok, Result.check_eq_ok] at checked
    obtain ⟨found, read, same⟩ := Result.bind_eq_ok.mp checked.2.2
    cases same
    exact freeIn_of_group read
  · cases checked

theorem createdGroup_spares {id : String} {scope : HostScope} {payload : GroupPayload} {confirmed : Bool}
    {now : Nat} (unnamed : Unnamed state id)
    (created : createdGroup state id scope payload confirmed now = .ok next) : Spares state next := by
  rw [createdGroup, Result.check_eq_ok] at created
  obtain ⟨_, created⟩ := created
  rw [Result.check_eq_ok, Result.check_eq_ok] at created
  obtain ⟨_, _, created⟩ := created
  obtain ⟨middle, promoted, created⟩ := Result.bind_eq_ok.mp created
  obtain ⟨record, _, created⟩ := Result.bind_eq_ok.mp created
  cases created
  exact (promote_spares promoted).setGroupRow (freeIn_of_unnamed unnamed scope .Group)

theorem updatedGroup_spares {id : String} {expected : RecordRevision} {payload : GroupPayload} {now : Nat}
    {scope : HostScope} (updated : updatedGroup state id expected payload now = .ok (scope, next)) :
    Spares state next := by
  obtain ⟨view, checked, updated⟩ := Result.bind_eq_ok.mp updated
  rw [Result.check_eq_ok] at updated
  obtain ⟨middle, put, same⟩ := Result.bind_eq_ok.mp updated.2
  cases same
  exact putGroup_spares (Spares.refl state) (checkedGroup_free checked) put

/-- A run of steps that each spare the shadowed rows. -/
theorem foldlM_spares {α : Type} {step : SyncStateV3 → α → Repo SyncStateV3} {items : List α}
    {origin start : SyncStateV3} (initial : Spares origin start)
    (steps : ∀ state item state', Spares origin state → item ∈ items → step state item = .ok state' →
      Spares origin state')
    (runs : items.foldlM step start = .ok next) : Spares origin next := by
  refine Result.foldlM_invariant (fun _ state => Spares origin state) initial ?_ runs
  intro done state item rest state' split spares step
  exact steps state item state' spares (by simp [split]) step

theorem deletedGroups_spares {token : RepositorySnapshot → String} {id : String}
    {expected : RecordRevision} {reviewed : Option String} {now : Nat} {scope : HostScope}
    (deleted : deletedGroups P token state id expected reviewed now = .ok (scope, next)) :
    Spares state next := by
  obtain ⟨root, _, deleted⟩ := Result.bind_eq_ok.mp deleted
  obtain ⟨library, _, deleted⟩ := Result.bind_eq_ok.mp deleted
  rw [Result.check_eq_ok, Result.check_eq_ok] at deleted
  obtain ⟨_, _, deleted⟩ := deleted
  obtain ⟨groups, _, deleted⟩ := Result.bind_eq_ok.mp deleted
  obtain ⟨middle, materialized, deleted⟩ := Result.bind_eq_ok.mp deleted
  obtain ⟨final, removed, same⟩ := Result.bind_eq_ok.mp deleted
  cases same
  -- Member hosts are rewritten by `update_host`, which asks for authority itself.
  have hosts : Spares state middle := by
    refine foldlM_spares (Spares.refl state) ?_ materialized
    intro before view after spares _ ran
    obtain ⟨resolved, _, ran⟩ := Result.bind_eq_ok.mp ran
    exact spares.trans (updateHost_spares ran)
  refine foldlM_spares hosts ?_ removed
  intro before other after spares _ ran
  obtain ⟨found, read, ran⟩ := Result.bind_eq_ok.mp ran
  exact putGroup_spares spares (freeIn_of_group read) ran

end Group

/-! ## Clearing pins -/

section Pins
variable {P : Primitives} {origin state state' next : SyncStateV3} {old : List HostView} {now : Nat}

theorem clearPin_cases {view : HostView} (cleared : clearPin old now state view = .ok state') :
    state' = state ∧ (portChanged old view = true →
        (state.hostRecords view.host.scope)[recordKey .Host view.host.id]? = none) ∨
      ∃ row row', portChanged old view = true ∧
        (state.hostRecords view.host.scope)[recordKey .Host view.host.id]? = some row ∧
        row.record.version < row'.record.version ∧
        state' = state.setHostRow view.host.scope (recordKey .Host view.host.id) row' := by
  unfold clearPin at cleared
  split at cleared
  · rename_i same
    cases cleared
    exact .inl ⟨rfl, fun changed => by simp [changed] at same⟩
  · rename_i changed
    simp only at cleared
    split at cleared
    · rename_i absent
      cases cleared
      exact .inl ⟨rfl, fun _ => absent⟩
    · rename_i row held
      obtain ⟨version, counted, cleared⟩ := Result.bind_eq_ok.mp cleared
      obtain ⟨later, _, cleared⟩ := Result.bind_eq_ok.mp cleared
      obtain ⟨_, rfl⟩ := checkedSucc_eq_ok.mp counted
      cases cleared
      exact .inr ⟨row, _, by simpa using changed, held, Nat.lt_succ_self _, rfl⟩

theorem clearPin_spares {view : HostView} (spares : Spares origin state)
    (free : portChanged old view = true → FreeIn origin view.host.scope .Host view.host.id)
    (cleared : clearPin old now state view = .ok state') : Spares origin state' := by
  obtain ⟨rfl, _⟩ | ⟨_, row', changed, _, _, rfl⟩ := clearPin_cases cleared
  · exact spares
  · exact spares.setHostRow (free changed)

/-- A row's version never goes down, and goes up when its own pin is cleared. -/
theorem clearPin_version {view : HostView} (cleared : clearPin old now state view = .ok state')
    {scope : HostScope} {key : String} {row : LocalRecord}
    (held : (state.hostRecords scope)[key]? = some row) :
    ∃ row', (state'.hostRecords scope)[key]? = some row' ∧ row.record.version ≤ row'.record.version ∧
      (portChanged old view = true → (view.host.scope, recordKey .Host view.host.id) = (scope, key) →
        row.record.version < row'.record.version) := by
  obtain ⟨rfl, absent⟩ | ⟨before, after, changed, found, later, rfl⟩ := clearPin_cases cleared
  · refine ⟨row, held, le_refl _, fun changed same => ?_⟩
    obtain ⟨rfl, rfl⟩ := Prod.mk.inj same
    rw [absent changed] at held
    cases held
  · by_cases same : (view.host.scope, recordKey .Host view.host.id) = (scope, key)
    · obtain ⟨rfl, rfl⟩ := Prod.mk.inj same
      rw [held] at found
      cases found
      exact ⟨after, hostRecords_setHostRow_self held, le_of_lt later, fun _ _ => later⟩
    · exact ⟨row, by rw [hostRecords_setHostRow_ne same]; exact held, le_refl _,
        fun _ equal => absurd equal same⟩

theorem clearPins_version {views : List HostView} (cleared : views.foldlM (clearPin old now) state = .ok next)
    {scope : HostScope} {key : String} {row : LocalRecord}
    (held : (state.hostRecords scope)[key]? = some row) :
    ∃ row', (next.hostRecords scope)[key]? = some row' ∧ row.record.version ≤ row'.record.version ∧
      ∀ view ∈ views, portChanged old view = true →
        (view.host.scope, recordKey .Host view.host.id) = (scope, key) →
        row.record.version < row'.record.version := by
  induction views generalizing state row with
  | nil =>
    cases cleared
    exact ⟨row, held, le_refl _, by simp⟩
  | cons view rest ih =>
    rw [List.foldlM_cons, Result.bind_eq_ok] at cleared
    obtain ⟨middle, first, cleared⟩ := cleared
    obtain ⟨between, held, grows, strict⟩ := clearPin_version first held
    obtain ⟨row', held, grows', strict'⟩ := ih cleared held
    refine ⟨row', held, le_trans grows grows', fun other member changed same => ?_⟩
    rcases List.mem_cons.mp member with rfl | member
    · exact lt_of_lt_of_le (strict changed same) grows'
    · exact lt_of_le_of_lt grows (strict' other member changed same)

/-- No host whose pin the edit clears is shadowed: the ports are those of the library before
the edit and of the edited records. -/
def PinsSpared (P : Primitives) (state candidate : SyncStateV3) : Prop :=
  ∀ old new, listHosts P state = .ok old → listHosts P candidate = .ok new →
    ∀ view ∈ new, portChanged old view = true → FreeIn state view.host.scope .Host view.host.id

/-- A group edit keeps authority exactly when it clears no pin of a shadowed host. -/
theorem finish_keeps_iff {candidate : SyncStateV3} {scope : HostScope} (spares : Spares state candidate)
    (finished : finish P state candidate scope now = .ok next) :
    KeepsAuthority state next ↔ PinsSpared P state candidate := by
  rw [finish, Result.check_eq_ok, Result.check_eq_ok] at finished
  obtain ⟨old, before, finished⟩ := Result.bind_eq_ok.mp finished.2.2
  obtain ⟨new, after, cleared⟩ := Result.bind_eq_ok.mp finished
  constructor
  · intro keeps old' new' before' after' view member changed spaceId here
    rw [before] at before'
    rw [after] at after'
    cases before'
    cases after'
    rw [← Bool.not_eq_true]
    intro hidden
    refine not_keepsAuthority hidden ?_ keeps
    obtain ⟨row, shown⟩ := (listHosts_spec after).2 view member
    obtain ⟨row', held', _, strict⟩ := clearPins_version cleared shown.held
    have later := strict view member changed rfl
    have held : (candidate.recordsAt (.Space spaceId))[recordKey .Host view.host.id]? = some row := by
      have held := shown.held
      rw [here] at held
      exact held
    rw [here] at held'
    rw [spares.rows (.Space spaceId) .Host view.host.id hidden] at held
    rw [held]
    intro same
    have unchanged : some row' = some row := held'.symm.trans same
    cases unchanged
    exact lt_irrefl _ later
  · intro spared
    refine (foldlM_spares spares ?_ cleared).keepsAuthority
    intro before' view after' spares member ran
    exact clearPin_spares spares (spared old new before after view member) ran

end Pins

/-! ## Every local edit -/

inductive LocalEdit where
  | createHost (id : String) (scope : HostScope) (payload : HostPayload)
  | updateHost (id : String) (expected : RecordRevision) (payload : HostPayload)
  | deleteHost (id : String) (expected : RecordRevision)
  | moveHost (id : String) (expected : RecordRevision) (destination : HostScope)
  | pinHostKey (id : String) (endpoint : HostEndpoint) (previous : Option StoredHostKey)
      (candidate : StoredHostKey)
  | forgetHostKey (id : String) (expected : RecordRevision) (endpoint : HostEndpoint)
      (pin : StoredHostKey)
  | createGroup (id : String) (scope : HostScope) (payload : GroupPayload) (confirmed : Bool)
  | updateGroup (id : String) (expected : RecordRevision) (payload : GroupPayload)
  | deleteGroup (id : String) (expected : RecordRevision) (reviewed : Option String)
  | setGroupOrder (expectedIds : List String) (expected : Option RecordRevision) (ids : List String)
  | renameKey (id : String) (expected : KeySlotPayload) (name : String)

namespace LocalEdit

def run (P : Primitives) (token : RepositorySnapshot → String) (state : SyncStateV3) (now : Nat) :
    LocalEdit → Repo SyncStateV3
  | createHost id scope payload => Sync.createHost P state id scope payload now
  | updateHost id expected payload => Sync.updateHost P state id expected payload now
  | deleteHost id expected => Sync.deleteHost P state id expected now
  | moveHost id expected destination => Sync.moveHost P state id expected destination now
  | pinHostKey id endpoint previous candidate =>
    Sync.pinHostKey P state id endpoint previous candidate now
  | forgetHostKey id expected endpoint pin => Sync.forgetHostKey P state id expected endpoint pin now
  | createGroup id scope payload confirmed =>
    Sync.createGroup P state id scope payload confirmed now
  | updateGroup id expected payload => Sync.updateGroup P state id expected payload now
  | deleteGroup id expected reviewed => Sync.deleteGroup P token state id expected reviewed now
  | setGroupOrder expectedIds expected ids => Sync.setGroupOrder state expectedIds expected ids now
  | renameKey id expected name => Sync.renameKey P state id expected name now

/-- The id of the record the edit creates. -/
def createdId : LocalEdit → Option String
  | createHost id _ _ => some id
  | createGroup id _ _ _ => some id
  | _ => none

end LocalEdit

/-! ## A group edit over a shadowed host

A pinned host takes its port from its group; a newer revision of it in an unsupported
format is retained.  Changing the group's port rewrites the host. -/

namespace Sample

def groupId : String := "eeeeeeeeeeeeeeee"

def groupPayload (port : UInt16) : GroupPayload :=
  { schema := GROUP_SCHEMA, name := "g", parentId := none
    defaults := { GroupDefaults.empty with port := some port } }

def groupRow : LocalRecord :=
  { record :=
      { kind := .Group, id := groupId, version := 1, updatedAtMs := 5, deviceId := device
        deleted := false, payload := (groupPayload 22).toJson }
    seq := 1, dirty := false }

/-- The sample host in the group, with a pinned server key. -/
def memberHost : LocalRecord :=
  { record :=
      { host 1 10 device with
        payload := HostPayload.toJson
          { hostPayload with
            schema := GROUPED_HOST_SCHEMA, groupId := some groupId, inherit := [.Port]
            hostKey := some
              { algorithm := "a", publicKey := "b", fingerprint := "SHA256:b", pinnedAtMs := 1
                pinnedByDeviceId := device } } }
    seq := 2, dirty := false }

/-- The retained revision is newer than the cached host. -/
def newerFuture : SealedRecord :=
  { envelope :=
      { idHash := "0a", kind := "host", seq := 3, nonce := "n", ciphertext := "nf", deleted := false }
    dirty := false
    publicIdentity := some
      { id := hostId, version := 2, updatedAtMs := 50, deviceId := otherDevice, deleted := false } }

def shadowedSpace : SpaceStateV3 :=
  { space with
    cursorSeq := 3
    records := ((∅ : BTreeMap LocalRecord).insert (recordKey .Group groupId) groupRow).insert
      (recordKey .Host hostId) memberHost
    sealed := (∅ : BTreeMap SealedRecord).insert "host:0a" newerFuture }

def shadowedLibrary : SyncStateV3 := { library shadowedSpace with version := GROUP_STATE_VERSION }

def memberTable : Primitives := tablePrimitives [] []

/-- The group edit that moves the member to another port. -/
def portEdit : LocalEdit := .updateGroup groupId (revision groupRow.record) (groupPayload 2222)

end Sample

end Sshelter.Sync
