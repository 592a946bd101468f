import Sshelter.Verified.RevisionOrder

/-! # Every local write wins

`Restamps before after`: each row of `after` is the row of `before` or a revision that wins
over it.  One stamped write keeps this, and every operation of the repository, of groups, of
the navigation order and of the library is a chain of stamped writes.
-/

namespace Sshelter.Sync

variable {P : Primitives} {before state next : SyncStateV3} {id : String} {now : Nat}

/-! ## Shelves -/

/-- The collections of revisions a state has. -/
inductive Shelf where
  | hosts
  | groups
  | space (id : String)
  | account
deriving DecidableEq

def SyncStateV3.shelf (state : SyncStateV3) : Shelf → BTreeMap LocalRecord
  | .hosts => state.local.hosts
  | .groups => state.local.groups
  | .space id => state.spaceRecords id
  | .account => (state.account.map (·.records)).getD ∅

def hostShelf : HostScope → Shelf
  | .Local => .hosts
  | .Space id => .space id

def groupShelf : HostScope → Shelf
  | .Local => .groups
  | .Space id => .space id

theorem shelf_hostShelf (scope : HostScope) : state.shelf (hostShelf scope) = state.hostRecords scope := by
  cases scope <;> rfl

/-- What may become of one place: it is left alone, or its row is replaced by one that wins. -/
def RowRestamps (old new : Option LocalRecord) : Prop :=
  new = old ∨ ∃ row', new = some row' ∧ ∀ row, old = some row → Replaces row.record row'.record

def Restamps (before after : SyncStateV3) : Prop :=
  ∀ (shelf : Shelf) (key : String), RowRestamps (before.shelf shelf)[key]? (after.shelf shelf)[key]?

theorem RowRestamps.trans {a b c : Option LocalRecord} (first : RowRestamps a b) (second : RowRestamps b c) :
    RowRestamps a c := by
  obtain rfl | ⟨middle, rfl, above⟩ := first
  · exact second
  · obtain rfl | ⟨final, rfl, above'⟩ := second
    · exact .inr ⟨middle, rfl, above⟩
    · exact .inr ⟨final, rfl, fun row held => (above row held).trans (above' middle rfl)⟩

theorem Restamps.refl (state : SyncStateV3) : Restamps state state := fun _ _ => .inl rfl

theorem Restamps.trans {first second third : SyncStateV3} (left : Restamps first second)
    (right : Restamps second third) : Restamps first third :=
  fun shelf key => (left shelf key).trans (right shelf key)

/-- Everything beside the shelves may change. -/
theorem Restamps.of_shelves (restamps : Restamps before state)
    (same : ∀ shelf, next.shelf shelf = state.shelf shelf) : Restamps before next := by
  intro shelf key
  rw [same shelf]
  exact restamps shelf key

/-- One row is written, if its shelf is there. -/
def WritesRow (state : SyncStateV3) (shelf : Shelf) (key : String) (row : LocalRecord)
    (next : SyncStateV3) : Prop :=
  ∀ (shelf' : Shelf) (key' : String), (next.shelf shelf')[key']? = (state.shelf shelf')[key']? ∨
    (shelf' = shelf ∧ key' = key ∧ (next.shelf shelf')[key']? = some row)

/-- A write stamped above the row it replaces. -/
theorem Restamps.write {shelf : Shelf} {key : String} {row : LocalRecord} (restamps : Restamps before state)
    (writes : WritesRow state shelf key row next)
    (above : ∀ old, (before.shelf shelf)[key]? = some old → Replaces old.record row.record) :
    Restamps before next := by
  intro shelf' key'
  obtain same | ⟨rfl, rfl, written⟩ := writes shelf' key'
  · rw [same]
    exact restamps shelf' key'
  · exact .inr ⟨row, written, above⟩

theorem writesRow_space (spaceId key : String) (row : LocalRecord) :
    WritesRow state (.space spaceId) key row (state.setSpaceRow spaceId key row) := by
  intro shelf key'
  unfold SyncStateV3.setSpaceRow
  cases found : state.spaces[spaceId]? with
  | none => exact .inl rfl
  | some space =>
    cases shelf with
    | space other =>
      by_cases same : (spaceId, key) = (other, key')
      · obtain ⟨rfl, rfl⟩ := Prod.mk.inj same
        exact .inr ⟨rfl, rfl, by simp [SyncStateV3.shelf, SyncStateV3.spaceRecords]⟩
      · have kept : ((state.setSpaceRow spaceId key row).spaceRecords other)[key']? =
            (state.spaceRecords other)[key']? := spaceRecords_setSpaceRow_ne same
        simp only [SyncStateV3.setSpaceRow, found] at kept
        exact .inl kept
    | hosts => exact .inl rfl
    | groups => exact .inl rfl
    | account => exact .inl rfl

theorem writesRow_insert {state next : SyncStateV3} {shelf : Shelf} {key : String} {row : LocalRecord}
    (written : next.shelf shelf = (state.shelf shelf).insert key row)
    (others : ∀ other, other ≠ shelf → next.shelf other = state.shelf other) :
    WritesRow state shelf key row next := by
  intro shelf' key'
  by_cases same : shelf' = shelf
  · subst same
    rw [written, BTreeMap.get?_insert]
    split
    · rename_i equal
      exact .inr ⟨rfl, equal.symm, rfl⟩
    · exact .inl rfl
  · rw [others shelf' same]
    exact .inl rfl

theorem writesRow_host (scope : HostScope) (key : String) (row : LocalRecord) :
    WritesRow state (hostShelf scope) key row (state.setHostRow scope key row) := by
  cases scope with
  | «Local» =>
    refine writesRow_insert rfl fun other apart => ?_
    cases other with
    | hosts => exact absurd rfl apart
    | groups => rfl
    | space id => rfl
    | account => rfl
  | Space spaceId => exact writesRow_space spaceId key row

theorem writesRow_group (scope : HostScope) (key : String) (row : LocalRecord) :
    WritesRow state (groupShelf scope) key row (state.setGroupRow scope key row) := by
  cases scope with
  | «Local» =>
    refine writesRow_insert rfl fun other apart => ?_
    cases other with
    | hosts => rfl
    | groups => exact absurd rfl apart
    | space id => rfl
    | account => rfl
  | Space spaceId => exact writesRow_space spaceId key row

theorem writesRow_account (key : String) (row : LocalRecord) :
    WritesRow state .account key row (state.setAccountRow key row) := by
  unfold SyncStateV3.setAccountRow
  cases joined : state.account with
  | none => exact fun _ _ => .inl rfl
  | some account =>
    refine writesRow_insert (by simp [SyncStateV3.shelf, joined]) fun other apart => ?_
    cases other with
    | hosts => rfl
    | groups => rfl
    | space id => rfl
    | account => exact absurd rfl apart

/-! ## Hosts -/

theorem Rewrites.restamps {scope : HostScope} {payload : Json} {deleted : Bool} {previous : LocalRecord}
    {record : Record} (rewrites : Rewrites P state scope id payload deleted now previous record next) :
    Restamps state next := by
  rw [rewrites.written]
  refine (Restamps.refl state).write (writesRow_host scope _ _) fun old held => ?_
  rw [shelf_hostShelf, rewrites.held] at held
  cases held
  exact orderedRecord_replaces rewrites.ordered List.mem_cons_self rfl rfl

/-- A key that no space has. -/
theorem not_held_of_fresh {key : String}
    (fresh : (state.spaces.values.any fun space => space.records.contains key) = false) (spaceId : String)
    {old : LocalRecord} : ¬ (state.shelf (.space spaceId))[key]? = some old := by
  intro held
  simp only [SyncStateV3.shelf, SyncStateV3.spaceRecords] at held
  cases found : state.spaces[spaceId]? with
  | none => simp [found] at held
  | some space =>
    rw [List.any_eq_false] at fresh
    have absent := fresh space (BTreeMap.mem_values.mpr ⟨spaceId, found⟩)
    rw [BTreeMap.contains_eq] at absent
    simp only [found, Option.map_some, Option.getD_some] at held
    simp [held] at absent

theorem createHost_restamps {scope : HostScope} {payload : HostPayload}
    (created : createHost P state id scope payload now = .ok next) : Restamps state next := by
  obtain ⟨record, creates⟩ := createHost_cases created
  rw [creates.written]
  refine (Restamps.refl state).write (writesRow_host scope _ _) fun old held => ?_
  -- nothing is replaced: the id is new in every scope
  obtain ⟨here, elsewhere⟩ := creates.fresh
  cases scope with
  | «Local» =>
    rw [BTreeMap.contains_eq] at here
    simp only [hostShelf, SyncStateV3.shelf] at held
    simp [held] at here
  | Space spaceId => exact absurd held (not_held_of_fresh elsewhere spaceId)

theorem updateHost_restamps {expected : RecordRevision} {payload : HostPayload}
    (updated : updateHost P state id expected payload now = .ok next) : Restamps state next := by
  obtain ⟨view, effective, _, _, _, _, previous, record, rewrites⟩ := updateHost_cases updated
  exact rewrites.restamps

theorem deleteHost_restamps {expected : RecordRevision}
    (deleted : deleteHost P state id expected now = .ok next) : Restamps state next := by
  obtain ⟨view, _, previous, record, rewrites⟩ := deleteHost_cases deleted
  exact rewrites.restamps

theorem forgetHostKey_restamps {expected : RecordRevision} {endpoint : HostEndpoint} {pin : StoredHostKey}
    (forgotten : forgetHostKey P state id expected endpoint pin now = .ok next) : Restamps state next := by
  obtain ⟨view, _, previous, record, rewrites⟩ := forgetHostKey_cases forgotten
  exact rewrites.restamps

theorem pinHostKey_restamps {endpoint : HostEndpoint} {previousPin : Option StoredHostKey}
    {candidate : StoredHostKey}
    (pinned : pinHostKey P state id endpoint previousPin candidate now = .ok next) : Restamps state next := by
  obtain ⟨view, _, _, _, _, _, ⟨_, rfl⟩ | ⟨_, _, previous, record, rewrites⟩⟩ := pinHostKey_cases pinned
  · exact .refl _
  · exact rewrites.restamps

/-- Both rows a move writes win over both rows it replaces. -/
theorem MovesHost.replaces {view : HostView} {destination : HostScope} {source : LocalRecord}
    {effective : EffectiveHost} {record : Record} {seq : Nat}
    (moves : MovesHost P state id view destination now source effective record seq next) {old : LocalRecord}
    (replaced : old = source ∨ (state.hostRecords destination)[recordKey .Host id]? = some old)
    {new : Record} (version : new.version = record.version) (time : new.updatedAtMs = record.updatedAtMs) :
    Replaces old.record new := by
  refine orderedRecord_replaces moves.ordered ?_ version time
  obtain rfl | there := replaced
  · exact List.mem_cons_self
  · exact List.mem_cons_of_mem _ (by simp [there])

theorem MovesHost.restamps {view : HostView} {destination : HostScope} {source : LocalRecord}
    {effective : EffectiveHost} {record : Record} {seq : Nat}
    (moves : MovesHost P state id view destination now source effective record seq next) :
    Restamps state next := by
  rw [moves.written]
  have left := (Restamps.refl state).write
    (writesRow_host view.host.scope (recordKey .Host id)
      (cachedRow { record with deleted := true, payload := .null } source.seq view.host.scope))
    (by
      intro old held
      rw [shelf_hostShelf, moves.held] at held
      cases held
      exact moves.replaces (.inl rfl) rfl rfl)
  refine left.write (writesRow_host destination _ _) fun old held => ?_
  rw [shelf_hostShelf] at held
  exact moves.replaces (.inr held) rfl rfl

theorem moveHost_restamps {expected : RecordRevision} {destination : HostScope}
    (moved : moveHost P state id expected destination now = .ok next) : Restamps state next := by
  obtain ⟨view, _, _, ⟨_, rfl⟩ | ⟨source, effective, record, seq, moves⟩⟩ := moveHost_moves moved
  · exact .refl _
  · exact moves.restamps

/-! ## Groups and the account -/

theorem restamps_account {account : AccountState} {key : String} {row : LocalRecord}
    (joined : state.account = some account)
    (above : ∀ old, account.records[key]? = some old → Replaces old.record row.record)
    (writes : WritesRow state .account key row next) : Restamps state next := by
  refine (Restamps.refl state).write writes fun old held => above old ?_
  simpa [SyncStateV3.shelf, joined] using held

theorem writesRow_joined {account : AccountState} {key : String} {row : LocalRecord}
    (joined : state.account = some account)
    (inserted : next.account = some { account with records := account.records.insert key row })
    (locals : next.local.hosts = state.local.hosts ∧ next.local.groups = state.local.groups)
    (spaces : next.spaces = state.spaces) : WritesRow state .account key row next := by
  refine writesRow_insert (by simp [SyncStateV3.shelf, joined, inserted]) fun other apart => ?_
  cases other with
  | hosts => exact locals.1
  | groups => exact locals.2
  | space id => simp only [SyncStateV3.shelf, SyncStateV3.spaceRecords, spaces]
  | account => exact absurd rfl apart

theorem promote_restamps {scope : HostScope} {confirmed : Bool}
    (done : promote state scope confirmed now = .ok next) : Restamps state next := by
  obtain ⟨_, rfl⟩ | ⟨account, old, record, _, _, joined, held, ordered, rfl⟩ := promote_cases done
  · exact (Restamps.refl state).of_shelves fun shelf => by cases shelf <;> rfl
  · refine restamps_account joined ?_ (writesRow_joined joined rfl ⟨rfl, rfl⟩ rfl)
    intro previous found
    rw [held] at found
    cases found
    exact orderedRecord_replaces ordered List.mem_cons_self rfl rfl

theorem setGroupOrder_restamps {expectedIds ids : List String} {expected : Option RecordRevision}
    (changed : setGroupOrder state expectedIds expected ids now = .ok next) : Restamps state next := by
  obtain ⟨_, _, rfl | ⟨_, rfl⟩ | ⟨account, record, joined, ordered, rfl⟩⟩ := setGroupOrder_cases changed
  · exact .refl _
  · exact (Restamps.refl state).of_shelves fun shelf => by cases shelf <;> rfl
  · refine restamps_account joined ?_ (writesRow_joined joined rfl ⟨rfl, rfl⟩ rfl)
    intro previous found
    exact orderedRecord_replaces ordered (by simp [found]) rfl rfl

theorem renameKey_restamps {expected : KeySlotPayload} {name : String}
    (renamed : renameKey P state id expected name now = .ok next) : Restamps state next := by
  obtain rfl | ⟨_, _, middle, rfl, written⟩ := renameKey_cases renamed
  · exact .refl _
  · have label : Restamps middle (renameLocalKey middle id (Text.trim name)) := by
      refine (Restamps.refl middle).of_shelves fun shelf => ?_
      unfold renameLocalKey
      split
      · rfl
      · cases shelf <;> rfl
    refine Restamps.trans ?_ label
    obtain rfl | ⟨_, account, previous, record, joined, held, ordered, rfl⟩ := written
    · exact .refl _
    · refine restamps_account joined ?_ (writesRow_joined joined rfl ⟨rfl, rfl⟩ rfl)
      intro old found
      rw [held] at found
      cases found
      exact orderedRecord_replaces ordered List.mem_cons_self rfl rfl

theorem publishLocal_restamps {keys : Option ChainKeys}
    (published : publishLocal P state keys now = .ok next) : Restamps state next := by
  unfold publishLocal at published
  split at published
  · cases published
    exact .refl _
  · rename_i account joined
    simp only at published
    split at published
    · cases published
      exact .refl _
    · rename_i missing
      rw [Result.check_eq_ok, Result.check_eq_ok] at published
      obtain ⟨_, _, published⟩ := published
      obtain ⟨record, _, published⟩ := Result.bind_eq_ok.mp published
      cases published
      refine restamps_account joined ?_ (writesRow_account _ _)
      intro old held
      -- the order is published only where the account has none
      simp [BTreeMap.contains_eq, held] at missing

/-- The rows of groups a scope has, when it can be read. -/
theorem shelf_groupShelf {scope : HostScope} {rows : BTreeMap LocalRecord}
    (read : groupRecords state scope = .ok rows) : state.shelf (groupShelf scope) = rows := by
  cases scope with
  | «Local» => exact Except.ok.inj read
  | Space spaceId =>
    simp only [groupRecords] at read
    split at read
    · rename_i space kept
      cases read
      rw [Option.filter_eq_some_iff] at kept
      simp [groupShelf, SyncStateV3.shelf, SyncStateV3.spaceRecords, kept.1]
    · cases read

/-- The group's row is read from the state the edit started from. -/
theorem putGroup_restamps {scope : HostScope} {payload : Json} {deleted : Bool}
    (restamps : Restamps before state)
    (put : putGroup before state scope id payload deleted now = .ok next) : Restamps before next := by
  obtain ⟨rows, read, put⟩ := Result.bind_eq_ok.mp put
  split at put
  · cases put
  · rename_i old held
    obtain ⟨record, ordered, put⟩ := Result.bind_eq_ok.mp put
    cases put
    refine restamps.write (writesRow_group scope _ _) fun row found => ?_
    rw [shelf_groupShelf read, held] at found
    cases found
    exact orderedRecord_replaces ordered List.mem_cons_self rfl rfl

theorem createdGroup_restamps {scope : HostScope} {payload : GroupPayload} {confirmed : Bool}
    (created : createdGroup state id scope payload confirmed now = .ok next) : Restamps state next := by
  rw [createdGroup, Result.check_eq_ok] at created
  obtain ⟨_, created⟩ := created
  rw [Result.check_eq_ok, Result.check_eq_ok, Result.refuse_eq_ok, Bool.or_eq_false_iff] at created
  obtain ⟨_, ⟨here, elsewhere⟩, created⟩ := created
  obtain ⟨middle, promoted, created⟩ := Result.bind_eq_ok.mp created
  obtain ⟨record, _, created⟩ := Result.bind_eq_ok.mp created
  cases created
  refine (promote_restamps promoted).write (writesRow_group scope _ _) fun old held => ?_
  cases scope with
  | «Local» =>
    rw [BTreeMap.contains_eq] at here
    simp only [groupShelf, SyncStateV3.shelf] at held
    simp [held] at here
  | Space spaceId => exact absurd held (not_held_of_fresh elsewhere spaceId)

theorem updatedGroup_restamps {expected : RecordRevision} {payload : GroupPayload} {scope : HostScope}
    (updated : updatedGroup state id expected payload now = .ok (scope, next)) : Restamps state next := by
  obtain ⟨view, _, updated⟩ := Result.bind_eq_ok.mp updated
  rw [Result.check_eq_ok] at updated
  obtain ⟨middle, put, same⟩ := Result.bind_eq_ok.mp updated.2
  cases same
  exact putGroup_restamps (.refl state) put

/-- A run of steps that each advance from where the run started. -/
theorem foldlM_restamps {α : Type} {step : SyncStateV3 → α → Repo SyncStateV3} {items : List α}
    (initial : Restamps before state)
    (steps : ∀ current item after, Restamps before current → step current item = .ok after →
      Restamps before after)
    (runs : items.foldlM step state = .ok next) : Restamps before next := by
  refine Result.foldlM_invariant (fun _ current => Restamps before current) initial ?_ runs
  intro _ current item _ after _ restamps ran
  exact steps current item after restamps ran

theorem deletedGroups_restamps {token : RepositorySnapshot → String} {expected : RecordRevision}
    {reviewed : Option String} {scope : HostScope}
    (deleted : deletedGroups P token state id expected reviewed now = .ok (scope, next)) :
    Restamps state next := by
  obtain ⟨root, _, deleted⟩ := Result.bind_eq_ok.mp deleted
  obtain ⟨library, _, deleted⟩ := Result.bind_eq_ok.mp deleted
  rw [Result.check_eq_ok, Result.check_eq_ok] at deleted
  obtain ⟨_, _, deleted⟩ := deleted
  obtain ⟨groups, _, deleted⟩ := Result.bind_eq_ok.mp deleted
  obtain ⟨middle, materialized, deleted⟩ := Result.bind_eq_ok.mp deleted
  obtain ⟨final, removed, same⟩ := Result.bind_eq_ok.mp deleted
  cases same
  have hosts : Restamps state middle := by
    refine foldlM_restamps (.refl state) ?_ materialized
    intro current view after restamps ran
    obtain ⟨resolved, _, ran⟩ := Result.bind_eq_ok.mp ran
    exact restamps.trans (updateHost_restamps ran)
  refine foldlM_restamps hosts ?_ removed
  intro current other after restamps ran
  obtain ⟨found, _, ran⟩ := Result.bind_eq_ok.mp ran
  exact putGroup_restamps restamps ran

/-! ## Pins -/

/-- Clearing a pin writes a revision that wins over the row it was read from. -/
theorem clearPin_restamps {old : List HostView} {view : HostView}
    (cleared : clearPin old now state view = .ok next) : Restamps state next := by
  unfold clearPin at cleared
  split at cleared
  · cases cleared
    exact .refl _
  · simp only at cleared
    split at cleared
    · cases cleared
      exact .refl _
    · rename_i row held
      obtain ⟨version, counted, cleared⟩ := Result.bind_eq_ok.mp cleared
      obtain ⟨later, stamped, cleared⟩ := Result.bind_eq_ok.mp cleared
      obtain ⟨_, rfl⟩ := checkedSucc_eq_ok.mp counted
      obtain ⟨_, rfl⟩ := checkedSucc_eq_ok.mp stamped
      cases cleared
      refine (Restamps.refl state).write (writesRow_host view.host.scope _ _) fun before found => ?_
      rw [shelf_hostShelf, held] at found
      cases found
      exact ⟨beats_of_newer (lt_of_lt_of_le (Nat.lt_succ_self _) (le_max_right now _)), Nat.lt_succ_self _⟩

theorem finish_restamps {scope : HostScope} (restamps : Restamps before state)
    (finished : finish P before state scope now = .ok next) : Restamps before next := by
  obtain ⟨old, new, _, _, _, _, cleared⟩ := finish_cases finished
  exact foldlM_restamps restamps (fun current view after restamps ran =>
    restamps.trans (clearPin_restamps ran)) cleared

theorem invalidatePin_restamps {old : List HostView} {view : HostView}
    (cleared : invalidatePin old state view = .ok next) : Restamps state next := by
  unfold invalidatePin at cleared
  split at cleared
  · cases cleared
    exact .refl _
  · simp only at cleared
    split at cleared
    · cases cleared
      exact .refl _
    · rename_i row held
      obtain ⟨version, counted, cleared⟩ := Result.bind_eq_ok.mp cleared
      obtain ⟨later, stamped, cleared⟩ := Result.bind_eq_ok.mp cleared
      obtain ⟨_, rfl⟩ := checkedSucc_eq_ok.mp counted
      obtain ⟨_, rfl⟩ := checkedSucc_eq_ok.mp stamped
      cases cleared
      refine (Restamps.refl state).write (writesRow_host view.host.scope _ _) fun before found => ?_
      rw [shelf_hostShelf, held] at found
      cases found
      exact ⟨beats_of_newer (Nat.lt_succ_self _), Nat.lt_succ_self _⟩

theorem invalidateChangedPins_restamps (cleared : invalidateChangedPins P before state = .ok next) :
    Restamps state next := by
  obtain ⟨old, _, cleared⟩ := Result.bind_eq_ok.mp cleared
  obtain ⟨new, _, cleared⟩ := Result.bind_eq_ok.mp cleared
  exact foldlM_restamps (.refl state) (fun current view after restamps ran =>
    restamps.trans (invalidatePin_restamps ran)) cleared

/-! ## The library -/

theorem promoteForHost_restamps {scope : HostScope} {payload : HostPayload} {confirmed : Bool}
    (done : promoteForHost state scope payload confirmed now = .ok next) : Restamps state next := by
  unfold promoteForHost at done
  split at done
  · rw [Result.check_eq_ok] at done
    exact promote_restamps done.2
  · cases done
    exact .refl _

theorem promoteForRows_restamps {scope : HostScope} {rows : List LocalRecord} {confirmed : Bool}
    (done : promoteForRows state scope rows confirmed now = .ok next) : Restamps state next := by
  unfold promoteForRows at done
  split at done
  · exact promote_restamps done
  · cases done
    exact .refl _

theorem moveUnless_restamps {expected : RecordRevision} {current : HostScope} {destination : Option HostScope}
    (moved : moveUnless P state id expected current destination now = .ok next) : Restamps state next := by
  unfold moveUnless at moved
  split at moved
  · exact moveHost_restamps moved
  · cases moved
    exact .refl _

theorem updateLibraryHost_restamps {expected : RecordRevision} {payload : HostPayload} {confirmed : Bool}
    (updated : updateLibraryHost P state id expected payload confirmed now = .ok next) :
    Restamps state next := by
  obtain ⟨saved, _, updated⟩ := Result.bind_eq_ok.mp updated
  obtain ⟨destination, _, updated⟩ := Result.bind_eq_ok.mp updated
  obtain ⟨moved, moves, updated⟩ := Result.bind_eq_ok.mp updated
  obtain ⟨current, _, updated⟩ := Result.bind_eq_ok.mp updated
  obtain ⟨upgraded, promoted, updated⟩ := Result.bind_eq_ok.mp updated
  exact ((moveUnless_restamps moves).trans (promoteForHost_restamps promoted)).trans
    (updateHost_restamps updated)

theorem setHostGroup_restamps {expected : RecordRevision} {groupId : Option String}
    (changed : setHostGroup P state id expected groupId now = .ok next) : Restamps state next := by
  obtain ⟨view, _, changed⟩ := Result.bind_eq_ok.mp changed
  rw [Result.check_eq_ok] at changed
  obtain ⟨_, changed⟩ := changed
  split at changed
  · cases changed
    exact .refl _
  · obtain ⟨destination, _, changed⟩ := Result.bind_eq_ok.mp changed
    obtain ⟨moved, moves, changed⟩ := Result.bind_eq_ok.mp changed
    obtain ⟨current, _, changed⟩ := Result.bind_eq_ok.mp changed
    exact (moveUnless_restamps moves).trans (updateHost_restamps changed)

/-- The shelf a row of this device is on. -/
def rowShelf (row : LocalRecord) : Shelf := if row.record.kind = .Group then .groups else .hosts

theorem writesRow_local (row new : LocalRecord) (key : String) :
    WritesRow state (rowShelf row) key new (setLocalRow state row.record.kind key new) := by
  unfold rowShelf setLocalRow
  split
  · exact writesRow_group .Local key new
  · exact writesRow_host .Local key new

theorem shelf_setLocalRow (row new : LocalRecord) (key : String) :
    ((setLocalRow state row.record.kind key new).shelf (rowShelf row))[key]? = some new := by
  unfold rowShelf setLocalRow
  split <;> exact BTreeMap.get?_insert_self _ _ _

theorem promoteForRows_records {scope : HostScope} {rows : List LocalRecord} {confirmed : Bool}
    (done : promoteForRows state scope rows confirmed now = .ok next) : SameRecords state next := by
  unfold promoteForRows at done
  split at done
  · exact promote_records done
  · cases done
    exact .refl _

/-- The row was included: its own place and its place in the library hold revisions that win
over it. -/
structure RowIncluded (destination : String) (row : LocalRecord) (next : SyncStateV3) : Prop where
  here : ∃ new, (next.shelf (rowShelf row))[rowKey row]? = some new ∧ Replaces row.record new.record
  there : ∃ new, (next.spaceRecords destination)[rowKey row]? = some new ∧ Replaces row.record new.record

theorem held_localRow (groups : checkCollection .Group state.local.groups = .ok ())
    (hosts : checkCollection .Host state.local.hosts = .ok ()) {row : LocalRecord}
    (member : row ∈ localRows state) : (state.shelf (rowShelf row))[rowKey row]? = some row := by
  obtain ⟨_, ⟨key, held⟩ | ⟨key, held⟩⟩ := mem_localRows.mp member
  · obtain ⟨rfl, kind⟩ := checkCollection_cases groups held
    simpa [rowShelf, kind, SyncStateV3.shelf] using held
  · obtain ⟨rfl, kind⟩ := checkCollection_cases hosts held
    simpa [rowShelf, kind, SyncStateV3.shelf] using held

/-- A replaced row stays replaced while the state restamps. -/
theorem replaced_of_rowRestamps {row : Record} {old new : Option LocalRecord}
    (replaced : ∃ held, old = some held ∧ Replaces row held.record) (restamps : RowRestamps old new) :
    ∃ held, new = some held ∧ Replaces row held.record := by
  obtain ⟨held, rfl, above⟩ := replaced
  obtain rfl | ⟨row', rfl, later⟩ := restamps
  · exact ⟨held, rfl, above⟩
  · exact ⟨row', rfl, above.trans (later held rfl)⟩

theorem RowIncluded.restamps {destination : String} {row : LocalRecord}
    (included : RowIncluded destination row state) (restamps : Restamps state next) :
    RowIncluded destination row next where
  here := replaced_of_rowRestamps included.here (restamps _ _)
  there := replaced_of_rowRestamps included.there (restamps (.space destination) _)

section Include
variable {destination : String} {current : SyncStateV3} {retained : List (String × String)} {row : LocalRecord}

/-- The two rows one inclusion writes carry a stamp above both rows they replace. -/
theorem includeRow_writes (ran : includeRow state destination retained now current row = .ok next) :
    ∃ record seq,
      next = (setLocalRow current row.record.kind (rowKey row)
          (cachedRow { record with deleted := true, payload := .null } row.seq .Local)).setSpaceRow
        destination (rowKey row) (cachedRow record seq (.Space destination)) ∧
      ∀ new : Record, new.version = record.version → new.updatedAtMs = record.updatedAtMs →
        Replaces row.record new ∧
          ∀ old, (state.spaceRecords destination)[rowKey row]? = some old → Replaces old.record new := by
  simp only [includeRow] at ran
  rw [Result.check_eq_ok, Result.check_eq_ok] at ran
  obtain ⟨_, _, ran⟩ := ran
  obtain ⟨record, ordered, ran⟩ := Result.bind_eq_ok.mp ran
  cases ran
  refine ⟨{ record with kind := row.record.kind }, _, rfl, fun new version time => ⟨?_, fun old held => ?_⟩⟩
  · exact orderedRecord_replaces ordered List.mem_cons_self version time
  · refine orderedRecord_replaces ordered (List.mem_cons_of_mem _ ?_) version time
    change (state.spaceRecords destination)[recordKey row.record.kind row.record.id]? = some old at held
    simp [held]

/-- Rows of this device that are included so far. -/
structure Including (state : SyncStateV3) (destination : String) (done : List LocalRecord)
    (current : SyncStateV3) : Prop where
  restamps : Restamps state current
  present : ∃ space, current.spaces[destination]? = some space
  included : ∀ row ∈ done, RowIncluded destination row current

theorem Including.step {done : List LocalRecord} (including : Including state destination done current)
    (held : ∀ row' ∈ done ++ [row], (state.shelf (rowShelf row'))[rowKey row']? = some row')
    (ran : includeRow state destination retained now current row = .ok next) :
    Including state destination (done ++ [row]) next := by
  obtain ⟨record, seq, rfl, above⟩ := includeRow_writes ran
  obtain ⟨space, present⟩ := including.present
  set tombstone := cachedRow { record with deleted := true, payload := .null } row.seq .Local
  set new := cachedRow record seq (.Space destination)
  set marked := setLocalRow current row.record.kind (rowKey row) tombstone with marked_eq
  have replaced : Replaces row.record tombstone.record := (above tombstone.record rfl rfl).1
  have moved : Replaces row.record new.record := (above new.record rfl rfl).1
  have first : WritesRow current (rowShelf row) (rowKey row) tombstone marked := writesRow_local row _ _
  have second : WritesRow marked (.space destination) (rowKey row) new
      (marked.setSpaceRow destination (rowKey row) new) := writesRow_space destination _ _
  have open_ : marked.spaces[destination]? = some space := by rw [marked_eq, setLocalRow_spaces, present]
  have local_ (row' : LocalRecord) : rowShelf row' ≠ .space destination := by
    unfold rowShelf
    split <;> exact fun equal => by cases equal
  -- two rows of this device with one key are the same row
  have same : ∀ row' ∈ done ++ [row], rowKey row' = rowKey row → row' = row := by
    intro row' member equal
    have shelf : rowShelf row' = rowShelf row := by
      unfold rowShelf
      rw [(recordKey_injective equal).1]
    have here := held row' member
    rw [shelf, equal, held row (by simp)] at here
    exact (Option.some.inj here).symm
  refine ⟨?_, ⟨_, by simp [SyncStateV3.setSpaceRow, open_]; rfl⟩, ?_⟩
  · refine (including.restamps.write first fun old found => ?_).write second fun old found => ?_
    · rw [held row (by simp)] at found
      cases found
      exact replaced
    · exact (above new.record rfl rfl).2 old found
  · intro row' member
    obtain here | ⟨outside, _, _⟩ := second (rowShelf row') (rowKey row')
    case inr => exact absurd outside (local_ row')
    by_cases this : row' = row
    · subst this
      refine ⟨⟨tombstone, ?_, replaced⟩, ⟨new, spaceRecords_setSpaceRow_self open_, moved⟩⟩
      rw [here, marked_eq, shelf_setLocalRow]
    · have apart : rowKey row' ≠ rowKey row := fun equal => this (same row' member equal)
      have earlier : row' ∈ done := by simpa [this] using member
      obtain ⟨⟨old, oldHere, oldAbove⟩, ⟨old', oldThere, oldAbove'⟩⟩ := including.included row' earlier
      refine ⟨⟨old, ?_, oldAbove⟩, ⟨old', ?_, oldAbove'⟩⟩
      · obtain kept | ⟨_, equal, _⟩ := first (rowShelf row') (rowKey row')
        · rw [here, kept, oldHere]
        · exact absurd equal apart
      · rw [spaceRecords_setSpaceRow_ne (by simpa using Ne.symm apart)]
        obtain kept | ⟨outside, _, _⟩ := first (.space destination) (rowKey row')
        · exact kept.trans oldThere
        · exact absurd outside.symm (local_ row)

/-- A live row of this device sits where its kind and id say. -/
theorem localRow_place (groups : checkCollection .Group state.local.groups = .ok ())
    (hosts : checkCollection .Host state.local.hosts = .ok ()) {shelf : Shelf} {key : String}
    (place : shelf = .hosts ∨ shelf = .groups) (held : (state.shelf shelf)[key]? = some row)
    (live : row.record.deleted = false) : row ∈ localRows state ∧ shelf = rowShelf row ∧ key = rowKey row := by
  obtain rfl | rfl := place
  · obtain ⟨keyed, kind⟩ := checkCollection_cases hosts held
    exact ⟨mem_localRows.mpr ⟨live, .inr ⟨key, held⟩⟩, by simp [rowShelf, kind], keyed⟩
  · obtain ⟨keyed, kind⟩ := checkCollection_cases groups held
    exact ⟨mem_localRows.mpr ⟨live, .inl ⟨key, held⟩⟩, by simp [rowShelf, kind], keyed⟩

/-- Every live row of this device is included, and nothing in the state is set back. -/
theorem includeExisting_restamps {pendingValid : PendingAccountOperation → Bool} {confirmed : Bool}
    {keys : Option ChainKeys}
    (ran : includeExisting P pendingValid state destination confirmed now keys = .ok next) :
    Restamps state next ∧ ∀ (shelf : Shelf) (key : String) (row : LocalRecord),
      shelf = .hosts ∨ shelf = .groups → (state.shelf shelf)[key]? = some row → row.record.deleted = false →
      (∃ new, (next.shelf shelf)[key]? = some new ∧ Replaces row.record new.record) ∧
        ∃ new, (next.spaceRecords destination)[key]? = some new ∧ Replaces row.record new.record := by
  rw [includeExisting, Result.check_eq_ok, Result.check_eq_ok, Result.check_eq_ok] at ran
  obtain ⟨ready, groups, hosts, ran⟩ := ran
  rw [libraryReady, Result.check_eq_ok] at ready
  simp only at ran
  split at ran
  · rename_i none_
    cases ran
    refine ⟨.refl _, fun shelf key row place held live => ?_⟩
    obtain ⟨member, _⟩ := localRow_place groups hosts place held live
    rw [List.isEmpty_iff.mp none_] at member
    cases member
  · obtain ⟨upgraded, promoted, ran⟩ := Result.bind_eq_ok.mp ran
    obtain ⟨moved, loop, ran⟩ := Result.bind_eq_ok.mp ran
    rw [Result.check_eq_ok] at ran
    obtain ⟨_, ran⟩ := ran
    obtain ⟨published, order, ran⟩ := Result.bind_eq_ok.mp ran
    rw [Result.check_eq_ok, Result.check_eq_ok] at ran
    obtain ⟨_, _, same⟩ := ran
    cases same
    -- the state is promoted first, then each row is included in turn, then the order published
    have start : Including state destination [] upgraded := by
      refine ⟨promoteForRows_restamps promoted, ?_, by simp⟩
      obtain ⟨space, found, _⟩ := mem_readableScopes_space.mp (readable_of_ensureScope ready.1)
      exact ⟨space, by rw [(promoteForRows_records promoted).spaces, found]⟩
    have including : Including state destination (localRows state) moved := by
      refine Result.foldlM_invariant (fun done => Including state destination done) start ?_ loop
      intro done current row rest after split including step
      refine including.step (fun row' member => held_localRow groups hosts ?_) step
      rw [split, List.append_cons]
      exact List.mem_append_left _ member
    have order := publishLocal_restamps order
    refine ⟨including.restamps.trans order, fun shelf key row place held live => ?_⟩
    obtain ⟨member, rfl, rfl⟩ := localRow_place groups hosts place held live
    have included := (including.included row member).restamps order
    exact ⟨included.here, included.there⟩

end Include

theorem includeNewRecords_restamps (pendingValid : PendingAccountOperation → Bool)
    (keys : Option ChainKeys) : Restamps state (includeNewRecords P pendingValid state keys) := by
  unfold includeNewRecords
  split
  · exact .refl _
  · split
    · exact .refl _
    · split
      · exact .refl _
      · split
        · rename_i included
          exact (includeExisting_restamps included).1
        · exact .refl _

/-! ## The reviewed inclusion -/

/-- A row that was renamed where it is: it is live, on this device, and keeps its stamp. -/
structure RenamedRow (shelf : Shelf) (old new : LocalRecord) : Prop where
  place : shelf = .hosts ∨ shelf = .groups
  live : new.record.deleted = false
  key : old.record.orderKey = new.record.orderKey
  version : old.record.version = new.record.version

def RenamedInPlace (state next : SyncStateV3) : Prop :=
  ∀ (shelf : Shelf) (key : String), (next.shelf shelf)[key]? = (state.shelf shelf)[key]? ∨
    ∃ old new, (state.shelf shelf)[key]? = some old ∧ (next.shelf shelf)[key]? = some new ∧
      RenamedRow shelf old new

theorem RenamedInPlace.trans {first second third : SyncStateV3} (left : RenamedInPlace first second)
    (right : RenamedInPlace second third) : RenamedInPlace first third := by
  intro shelf key
  obtain same | ⟨old, new, held, held', renamed⟩ := left shelf key
  · rw [← same]
    exact right shelf key
  · obtain same' | ⟨old', new', held₂, held₂', renamed'⟩ := right shelf key
    · exact .inr ⟨old, new, held, same'.trans held', renamed⟩
    · rw [held'] at held₂
      cases held₂
      exact .inr ⟨old, new', held, held₂', renamed.place, renamed'.live, renamed.key.trans renamed'.key,
        renamed.version.trans renamed'.version⟩

theorem renameRow_renamed {progress progress' : SyncStateV3 × List (NameKind × String)} {edit : Rename}
    (ran : renameRow progress edit = .ok progress') : RenamedInPlace progress.1 progress'.1 := by
  obtain ⟨current, seen⟩ := progress
  simp only [renameRow] at ran
  rw [Result.check_eq_ok] at ran
  obtain ⟨_, ran⟩ := ran
  split at ran
  · cases ran
  · rename_i row found
    cases ran
    obtain ⟨held, live⟩ := Option.filter_eq_some_iff.mp found
    have live : row.record.deleted = false := by simpa using live
    set renamed : LocalRecord := { row with
      record := { row.record with payload := row.record.payload.set edit.kind.field (.str edit.name) } }
    obtain ⟨place, on, writes, held⟩ : ∃ place : Shelf, (place = .hosts ∨ place = .groups) ∧
        WritesRow current place (recordKey edit.kind.recordKind edit.id) renamed
          (setLocalRow current edit.kind.recordKind (recordKey edit.kind.recordKind edit.id) renamed) ∧
        (current.shelf place)[recordKey edit.kind.recordKind edit.id]? = some row := by
      clear_value renamed
      cases kind : edit.kind with
      | Host =>
        rw [kind] at held
        exact ⟨.hosts, .inl rfl, writesRow_host .Local _ _, held⟩
      | Group =>
        rw [kind] at held
        exact ⟨.groups, .inr rfl, writesRow_group .Local _ _, held⟩
    intro shelf key
    obtain same | ⟨rfl, rfl, written⟩ := writes shelf key
    · exact .inl same
    · exact .inr ⟨row, renamed, held, written, on, live, rfl, rfl⟩

theorem renameRows_renamed {renames : List Rename} (ran : renameRows state renames = .ok next) :
    RenamedInPlace state next := by
  obtain ⟨⟨final, seen⟩, loop, same⟩ := Result.bind_eq_ok.mp ran
  cases same
  refine Result.foldlM_invariant (fun _ progress => RenamedInPlace state progress.1) (fun _ _ => .inl rfl) ?_ loop
  intro _ progress edit _ progress' _ renamed step
  exact renamed.trans (renameRow_renamed step)

section Review
variable {pendingValid : PendingAccountOperation → Bool} {digest : SyncStateV3 → String → String}
  {destination : String} {confirmed : Bool} {review : Option LibraryReview} {keys : Option ChainKeys}

/-- A rename changes no stamp, but every renamed row is then included and so replaced. -/
theorem includeReviewed_restamps
    (ran : includeReviewed P pendingValid digest state destination confirmed now review keys = .ok next) :
    Restamps state next := by
  unfold includeReviewed at ran
  cases review with
  | none => exact (includeExisting_restamps (Result.mapError_eq_ok.mp ran)).1
  | some review =>
    simp only at ran
    rw [Result.check_eq_ok, Result.check_eq_ok] at ran
    obtain ⟨_, _, ran⟩ := ran
    obtain ⟨proposed, renames, ran⟩ := Result.bind_eq_ok.mp ran
    obtain ⟨included, includes, ran⟩ := Result.bind_eq_ok.mp ran
    rw [Result.check_eq_ok] at ran
    obtain ⟨_, same⟩ := ran
    cases same
    obtain ⟨restamps, replaced⟩ := includeExisting_restamps (Result.mapError_eq_ok.mp includes)
    intro shelf key
    obtain same | ⟨old, new, held, held', renamed⟩ := renameRows_renamed renames shelf key
    · rw [← same]
      exact restamps shelf key
    · obtain ⟨⟨final, written, above⟩, _⟩ := replaced shelf key new renamed.place held' renamed.live
      refine .inr ⟨final, written, fun row found => ?_⟩
      rw [held] at found
      cases found
      exact above.of_same_order renamed.key renamed.version

theorem enableReviewed_restamps
    (ran : enableReviewed P pendingValid digest state confirmed now review keys = .ok next) :
    Restamps state next := by
  unfold enableReviewed at ran
  split at ran
  · cases ran
  · obtain ⟨included, includes, ran⟩ := Result.bind_eq_ok.mp ran
    have restamps := includeReviewed_restamps includes
    simp only at ran
    split at ran
    · cases ran
    · rename_i previous found
      split at ran
      · cases ran
        exact restamps
      · obtain ⟨record, ordered, ran⟩ := Result.bind_eq_ok.mp ran
        cases ran
        -- the device's row is read before anything is included
        refine restamps.write (writesRow_account _ _) fun old held => ?_
        obtain ⟨account, joined, held'⟩ := Option.bind_eq_some_iff.mp found
        simp only [SyncStateV3.shelf, joined, Option.map_some, Option.getD_some] at held
        rw [held'] at held
        cases held
        exact orderedRecord_replaces (Result.mapError_eq_ok.mp ordered) List.mem_cons_self rfl rfl

end Review

/-! ## Every local write -/

/-- The operations that write revisions of this device.  The pins a merge makes stale are
cleared in the merged candidate; `before` is the state the merge started from. -/
inductive LocalWrite where
  | edit (made : LocalEdit)
  | updateLibraryHost (id : String) (expected : RecordRevision) (payload : HostPayload) (confirmed : Bool)
  | setHostGroup (id : String) (expected : RecordRevision) (groupId : Option String)
  | publishLocal (keys : Option ChainKeys)
  | includeExisting (destination : String) (confirmed : Bool) (keys : Option ChainKeys)
  | includeNewRecords (keys : Option ChainKeys)
  | enableReviewed (confirmed : Bool) (review : Option LibraryReview) (keys : Option ChainKeys)
  | invalidateChangedPins (before : SyncStateV3)

namespace LocalWrite

variable (P : Primitives) (pendingValid : PendingAccountOperation → Bool)
  (token : RepositorySnapshot → String) (digest : SyncStateV3 → String → String)

def attempt (state : SyncStateV3) (now : Nat) : LocalWrite → Option SyncStateV3
  | edit made => (made.run P token state now).toOption
  | updateLibraryHost id expected payload confirmed =>
    (Sync.updateLibraryHost P state id expected payload confirmed now).toOption
  | setHostGroup id expected groupId => (Sync.setHostGroup P state id expected groupId now).toOption
  | publishLocal keys => (Sync.publishLocal P state keys now).toOption
  | includeExisting destination confirmed keys =>
    (Sync.includeExisting P pendingValid state destination confirmed now keys).toOption
  | includeNewRecords keys => some (Sync.includeNewRecords P pendingValid state keys)
  | enableReviewed confirmed review keys =>
    (Sync.enableReviewed P pendingValid digest state confirmed now review keys).toOption
  | invalidateChangedPins before => (Sync.invalidateChangedPins P before state).toOption

/-- What the caller has afterwards: a write that fails hands back nothing. -/
def commit (state : SyncStateV3) (now : Nat) (write : LocalWrite) : SyncStateV3 :=
  (write.attempt P pendingValid token digest state now).getD state

end LocalWrite

theorem localEdit_restamps {token : RepositorySnapshot → String} {edit : LocalEdit}
    (ran : edit.run P token state now = .ok next) : Restamps state next := by
  cases edit with
  | createHost id scope payload => exact createHost_restamps ran
  | updateHost id expected payload => exact updateHost_restamps ran
  | deleteHost id expected => exact deleteHost_restamps ran
  | moveHost id expected destination => exact moveHost_restamps ran
  | pinHostKey id endpoint previous candidate => exact pinHostKey_restamps ran
  | forgetHostKey id expected endpoint pin => exact forgetHostKey_restamps ran
  | createGroup id scope payload confirmed =>
    obtain ⟨candidate, created, finished⟩ := Result.bind_eq_ok.mp ran
    exact finish_restamps (createdGroup_restamps created) finished
  | updateGroup id expected payload =>
    obtain ⟨⟨scope, candidate⟩, updated, finished⟩ := Result.bind_eq_ok.mp ran
    exact finish_restamps (updatedGroup_restamps updated) finished
  | deleteGroup id expected reviewed =>
    obtain ⟨⟨scope, candidate⟩, deleted, finished⟩ := Result.bind_eq_ok.mp ran
    exact finish_restamps (deletedGroups_restamps deleted) finished
  | setGroupOrder expectedIds expected ids => exact setGroupOrder_restamps ran
  | renameKey id expected name => exact renameKey_restamps ran

theorem localWrite_restamps {pendingValid : PendingAccountOperation → Bool}
    {token : RepositorySnapshot → String} {digest : SyncStateV3 → String → String} {write : LocalWrite}
    (ran : write.attempt P pendingValid token digest state now = some next) : Restamps state next := by
  cases write with
  | edit made => exact localEdit_restamps (Result.mem_toOption.mp ran)
  | updateLibraryHost id expected payload confirmed =>
    exact updateLibraryHost_restamps (Result.mem_toOption.mp ran)
  | setHostGroup id expected groupId => exact setHostGroup_restamps (Result.mem_toOption.mp ran)
  | publishLocal keys => exact publishLocal_restamps (Result.mem_toOption.mp ran)
  | includeExisting destination confirmed keys =>
    exact (includeExisting_restamps (Result.mem_toOption.mp ran)).1
  | includeNewRecords keys =>
    cases ran
    exact includeNewRecords_restamps pendingValid keys
  | enableReviewed confirmed review keys => exact enableReviewed_restamps (Result.mem_toOption.mp ran)
  | invalidateChangedPins before => exact invalidateChangedPins_restamps (Result.mem_toOption.mp ran)

/-- The row that arrives with a move wins over the row that left. -/
theorem moveHost_arrives {expected : RecordRevision} {destination : HostScope}
    (moved : moveHost P state id expected destination now = .ok next) {view : HostView}
    (found : getHost P state id = .ok view) (apart : view.host.scope ≠ destination) :
    ∃ source new, (state.hostRecords view.host.scope)[recordKey .Host id]? = some source ∧
      (next.hostRecords destination)[recordKey .Host id]? = some new ∧
      Replaces source.record new.record := by
  obtain ⟨view', checked, writable, written⟩ := moveHost_moves moved
  obtain ⟨found', _⟩ := checkedHost_cases checked
  rw [found] at found'
  cases found'
  obtain ⟨same, _⟩ | ⟨source, effective, record, seq, moves⟩ := written
  · exact absurd same apart
  · refine ⟨source, cachedRow record seq destination, moves.held, ?_, moves.replaces (.inl rfl) rfl rfl⟩
    rw [moves.written]
    apply hostRecords_setHostRow_readable
    rw [SameScopes.setHostRow.readable]
    exact readable_of_ensureScope writable

/-- Pin clearing fails only when the row has no later stamp. -/
theorem clearPin_eq_error {old : List HostView} {view : HostView} {error : RepositoryError}
    (failed : clearPin old now state view = .error error) : ∃ id, error = .OrderingOverflow id := by
  unfold clearPin at failed
  split at failed
  · cases failed
  · simp only at failed
    split at failed
    · cases failed
    · exact ⟨_, checkedSuccs_eq_error (fun _ _ => ⟨_, rfl⟩) failed⟩

theorem invalidatePin_eq_error {old : List HostView} {view : HostView} {error : RepositoryError}
    (failed : invalidatePin old state view = .error error) : ∃ id, error = .OrderingOverflow id := by
  unfold invalidatePin at failed
  split at failed
  · cases failed
  · simp only at failed
    split at failed
    · cases failed
    · exact ⟨_, checkedSuccs_eq_error (fun _ _ => ⟨_, rfl⟩) failed⟩

/-- Revisions are merged in a strict total order of their keys, so a set of revisions has one
winner.  Every stamp taken for a local write is above the revisions it replaces or is refused
for want of numbers, and every operation either restamps the rows it writes or leaves the
caller's state as it was.  A moved record also wins over the row it leaves behind. -/
theorem local_writes_win (P : Primitives) (pendingValid : PendingAccountOperation → Bool)
    (token : RepositorySnapshot → String) (digest : SyncStateV3 → String → String) :
    -- the order
    (∀ a b : Record, Beats a b ↔ a.updatedAtMs < b.updatedAtMs ∨ (a.updatedAtMs = b.updatedAtMs ∧
      (a.deleted < b.deleted ∨ (a.deleted = b.deleted ∧ b.deviceId < a.deviceId)))) ∧
    (∀ a, ¬ Beats a a) ∧ (∀ a b c, Beats a b → Beats b c → Beats a c) ∧
    (∀ a b : Record, a.orderKey ≠ b.orderKey → Beats a b ∨ Beats b a) ∧
    -- merging
    (∀ revisions : List Record, revisions ≠ [] → (revisions.map Record.orderKey).Nodup →
      ∃ winner ∈ revisions, ∀ start rest seq dirty, (start :: rest).Perm revisions →
        (rest.foldl takeMerged { record := start, seq, dirty }).record = winner) ∧
    -- stamping
    (∀ deviceId id payload deleted now previous,
      match orderedRecord deviceId id payload deleted now previous with
      | .ok record => (∀ old ∈ previous, Replaces old record) ∧
          (now ≤ u64Max → record.version ≤ u64Max ∧ record.updatedAtMs ≤ u64Max)
      | .error error => error = .OrderingOverflow id) ∧
    (∀ old now state view,
      match clearPin old now state view with
      | .ok next => Restamps state next
      | .error error => ∃ id, error = .OrderingOverflow id) ∧
    (∀ old state view,
      match invalidatePin old state view with
      | .ok next => Restamps state next
      | .error error => ∃ id, error = .OrderingOverflow id) ∧
    -- the operations
    (∀ (write : LocalWrite) (state : SyncStateV3) (now : Nat),
      match write.attempt P pendingValid token digest state now with
      | some next => write.commit P pendingValid token digest state now = next ∧ Restamps state next
      | none => write.commit P pendingValid token digest state now = state) ∧
    -- both ends of a move
    (∀ (state next : SyncStateV3) id expected destination now view,
      moveHost P state id expected destination now = .ok next → getHost P state id = .ok view →
      view.host.scope ≠ destination →
      ∃ source new, (state.hostRecords view.host.scope)[recordKey .Host id]? = some source ∧
        (next.hostRecords destination)[recordKey .Host id]? = some new ∧
        Replaces source.record new.record) ∧
    (∀ (state next : SyncStateV3) destination confirmed now keys,
      includeExisting P pendingValid state destination confirmed now keys = .ok next →
      ∀ (shelf : Shelf) (key : String) (row : LocalRecord), shelf = .hosts ∨ shelf = .groups →
        (state.shelf shelf)[key]? = some row → row.record.deleted = false →
        ∃ new, (next.spaceRecords destination)[key]? = some new ∧ Replaces row.record new.record) := by
  refine ⟨?_, ?_, ?_, ?_, ?_, ?_, ?_, ?_, ?_, ?_, ?_⟩
  · intro a b
    rw [beats_iff, stamp_lt_iff]
  · intro a wins
    exact lt_irrefl _ (beats_iff.mp wins)
  · intro a b c first second
    exact beats_iff.mpr (lt_trans (beats_iff.mp first) (beats_iff.mp second))
  · intro a b apart
    have stamps : a.stamp ≠ b.stamp := fun same => apart (orderKey_eq_iff.mpr same)
    exact (lt_or_gt_of_ne stamps).imp beats_iff.mpr beats_iff.mpr
  · intro revisions some_ distinct
    obtain ⟨winner, member, _, wins⟩ := foldl_takeMerged_winner some_ distinct
    exact ⟨winner, member, wins⟩
  · intro deviceId id payload deleted now previous
    split
    · rename_i record ordered
      exact ⟨fun old member => orderedRecord_replaces ordered member rfl rfl,
        fun clock => orderedRecord_fits clock ordered⟩
    · rename_i error failed
      exact orderedRecord_eq_error failed
  · intro old now state view
    split
    · rename_i next cleared
      exact clearPin_restamps cleared
    · rename_i error failed
      exact clearPin_eq_error failed
  · intro old state view
    split
    · rename_i next cleared
      exact invalidatePin_restamps cleared
    · rename_i error failed
      exact invalidatePin_eq_error failed
  · intro write state now
    split
    · rename_i next ran
      exact ⟨by simp [LocalWrite.commit, ran], localWrite_restamps ran⟩
    · rename_i failed
      simp [LocalWrite.commit, failed]
  · intro state next id expected destination now view moved found apart
    exact moveHost_arrives moved found apart
  · intro state next destination confirmed now keys included shelf key row place held live
    exact ((includeExisting_restamps included).2 shelf key row place held live).2

end Sshelter.Sync
