import Sshelter.Verified.GroupRepair
import Sshelter.Verified.PinHistory

/-! # Settings that stay when a host moves

A host that is moved, regrouped or left behind by a deleted group takes the settings it
had with it as its own.  Nothing about the connection changes but the group it belongs
to, and no other host is written.
-/

namespace Sshelter.Sync

variable {P : Primitives} {state next : SyncStateV3} {id : String} {now : Nat}

/-! ## Frames -/

/-- Hosts keep their settings from `state` to `next`.  Only touched rows are written, and hosts keep
their scope unless the edit moves. -/
structure Carries (P : Primitives) (touched : HostScope → String → Prop) (moves : Prop)
    (state next : SyncStateV3) : Prop extends SameScopes state next where
  rows : ∀ scope id, ¬ touched scope id →
    (next.hostRecords scope)[recordKey .Host id]? = (state.hostRecords scope)[recordKey .Host id]?
  forward : ∀ host row, Holds P state host row → ∃ host' row', Holds P next host' row' ∧ host'.id = host.id ∧
    (moves ∨ host'.scope = host.scope) ∧
    materialize (effectiveOf P next host') = materialize (effectiveOf P state host)
  backward : ∀ host row, Holds P next host row → ∃ old oldRow, Holds P state old oldRow ∧ old.id = host.id ∧
    (moves ∨ old.scope = host.scope)
  untouched : ∀ host row, Holds P state host row → ¬ touched host.scope host.id →
    effectiveOf P next host = effectiveOf P state host

theorem Carries.holds {touched : HostScope → String → Prop} {moves : Prop} {host : HostRecord}
    {row : LocalRecord} (carries : Carries P touched moves state next) (holds : Holds P state host row)
    (spared : ¬ touched host.scope host.id) : Holds P next host row := by
  refine ⟨carries.readable ▸ holds.scope, ?_, holds.decodes⟩
  rw [carries.rows _ _ spared]
  exact holds.held

theorem Carries.refl {touched : HostScope → String → Prop} {moves : Prop} (state : SyncStateV3) :
    Carries P touched moves state state :=
  ⟨.refl state, fun _ _ _ => rfl, fun host row holds => ⟨host, row, holds, rfl, .inr rfl, rfl⟩,
    fun host row holds => ⟨host, row, holds, rfl, .inr rfl⟩, fun _ _ _ _ => rfl⟩

theorem Carries.trans {first second : HostScope → String → Prop} {moves moves' : Prop}
    {middle : SyncStateV3} (left : Carries P first moves state middle)
    (right : Carries P second moves' middle next) :
    Carries P (fun scope id => first scope id ∨ second scope id) (moves ∨ moves') state next := by
  refine ⟨left.toSameScopes.trans right.toSameScopes, ?_, ?_, ?_, ?_⟩
  · intro scope id spared
    rw [not_or] at spared
    exact (right.rows scope id spared.2).trans (left.rows scope id spared.1)
  · intro host row holds
    obtain ⟨mid, midRow, midHolds, midId, midScope, midSettings⟩ := left.forward host row holds
    obtain ⟨host', row', holds', sameId, scope, settings⟩ := right.forward mid midRow midHolds
    refine ⟨host', row', holds', sameId.trans midId, ?_, settings.trans midSettings⟩
    obtain moved | stays := midScope
    · exact .inl (.inl moved)
    · obtain moved | stays' := scope
      · exact .inl (.inr moved)
      · exact .inr (stays'.trans stays)
  · intro host row holds
    obtain ⟨mid, midRow, midHolds, midId, midScope⟩ := right.backward host row holds
    obtain ⟨old, oldRow, oldHolds, sameId, scope⟩ := left.backward mid midRow midHolds
    refine ⟨old, oldRow, oldHolds, sameId.trans midId, ?_⟩
    obtain moved | stays := midScope
    · exact .inl (.inr moved)
    · obtain moved | stays' := scope
      · exact .inl (.inl moved)
      · exact .inr (stays'.trans stays)
  · intro host row holds spared
    rw [not_or] at spared
    exact (right.untouched host row (left.holds holds spared.1) spared.2).trans
      (left.untouched host row holds spared.1)

/-- A larger frame. -/
theorem Carries.weaken {touched touched' : HostScope → String → Prop} {moves moves' : Prop}
    (carries : Carries P touched moves state next) (more : ∀ scope id, touched scope id → touched' scope id)
    (moving : moves → moves') : Carries P touched' moves' state next := by
  refine ⟨carries.toSameScopes, fun scope id spared => carries.rows scope id fun hit => spared (more _ _ hit),
    fun host row holds => ?_, fun host row holds => ?_,
    fun host row holds spared => carries.untouched host row holds fun hit => spared (more _ _ hit)⟩
  · obtain ⟨host', row', holds', sameId, scope, settings⟩ := carries.forward host row holds
    exact ⟨host', row', holds', sameId, scope.imp_left moving, settings⟩
  · obtain ⟨old, oldRow, oldHolds, sameId, scope⟩ := carries.backward host row holds
    exact ⟨old, oldRow, oldHolds, sameId, scope.imp_left moving⟩

/-! ## Hosts with settings of their own -/

/-- A host that inherits nothing is shown with its own settings, whether its groups resolve or not. -/
theorem effectiveOf_own {host : HostRecord} (own : host.payload.inherit = []) :
    effectiveOf P state host = host.payload := by
  obtain raw | ⟨path, inherited⟩ := effectiveOf_cases P state host
  · exact raw
  · rw [inherited, inheritFields_payload, own]
    rfl

theorem listed_of_transition {before : SyncStateV3} (valid : validateTransition P before next = .ok ()) :
    ∃ hosts, listHosts P next = .ok hosts := by
  obtain ⟨_, new, _, listed, _⟩ := validateTransition_cases valid
  exact ⟨new, listed⟩

/-- The host that a written live row of a readable library shows. -/
theorem holds_of_written {hosts : List HostView} {scope : HostScope} {row : LocalRecord}
    {payload : HostPayload} (listed : listHosts P next = .ok hosts) (readable : scope ∈ readableScopes next)
    (held : (next.hostRecords scope)[recordKey .Host id]? = some row) (live : row.record.deleted = false)
    (written : row.record.payload = payload.toJson) : Holds P next { id, scope, payload } row := by
  obtain ⟨host, named, placed, holds⟩ := holds_of_live listed readable held live
  have payload_eq := payload_of_written written holds.decodes
  have same : host = { id, scope, payload } := by
    cases host
    simp only at named placed payload_eq
    rw [named, placed, payload_eq]
  rw [← same]
  exact holds

/-- A new revision with the old settings, all of them the host's own. -/
theorem Rewrites.carries {view : HostView} {row previous : LocalRecord} {record : Record}
    {payload : HostPayload}
    (rewrites : Rewrites P state view.host.scope id payload.toJson false now previous record next)
    (shown : Shown P state view row) (named : view.host.id = id) (own : payload.inherit = [])
    (same : materialize payload = materialize view.effectivePayload) :
    Carries P (fun scope other => scope = view.host.scope ∧ other = id) False state next := by
  obtain ⟨hosts, listed⟩ := listed_of_transition rewrites.transition
  obtain ⟨_, _, _, live, written, _⟩ := orderedRecord_spec rewrites.ordered
  have groups : SameGroups state next := by
    rw [rewrites.written]
    exact .setHostRow
  -- only the slot of the host is written
  have spares (scope : HostScope) (other : String) (spared : ¬ (scope = view.host.scope ∧ other = id)) :
      (next.hostRecords scope)[recordKey .Host other]? = (state.hostRecords scope)[recordKey .Host other]? := by
    rw [rewrites.written]
    apply hostRecords_setHostRow_ne
    intro equal
    obtain ⟨scopes, keys⟩ := Prod.mk.inj equal
    exact spared ⟨scopes.symm, (recordKey_injective keys).2.symm⟩
  have readable : view.host.scope ∈ readableScopes next := groups.readable ▸ shown.holds.scope
  have held : (next.hostRecords view.host.scope)[recordKey .Host id]? =
      some (cachedRow record previous.seq view.host.scope) := by
    rw [rewrites.written]
    exact hostRecords_setHostRow_self rewrites.held
  have rewritten := holds_of_written listed readable held live written
  refine ⟨groups.toSameScopes, spares, ?_, ?_, ?_⟩
  · intro host row' holds
    by_cases touched : host.scope = view.host.scope ∧ host.id = id
    · obtain rfl := (holds.unique shown.holds touched.1 (touched.2.trans named.symm)).1
      refine ⟨_, _, rewritten, named.symm, .inr rfl, ?_⟩
      rw [effectiveOf_own own, ← shown.effective]
      exact same
    · refine ⟨host, row', ⟨groups.readable ▸ holds.scope, ?_, holds.decodes⟩, rfl, .inr rfl, ?_⟩
      · rw [spares _ _ touched]
        exact holds.held
      · rw [groups.effectiveOf holds.scope]
  · intro host row' holds
    rw [rewrites.written] at holds
    obtain ⟨placed, sameId, _⟩ | before := holds.of_setHostRow
    · exact ⟨view.host, row, shown.holds, named.trans sameId.symm, .inr placed.symm⟩
    · exact ⟨host, row', before, rfl, .inr rfl⟩
  · intro host row' holds _
    exact groups.effectiveOf holds.scope

/-- An update that spells the shown settings out keeps them, and the pin. -/
theorem updateHost_carries {expected : RecordRevision} {payload : HostPayload}
    (updated : updateHost P state id expected payload now = .ok next) (own : payload.inherit = [])
    (same : ∀ view, getHost P state id = .ok view →
      materialize payload = materialize view.effectivePayload) :
    ∃ view, getHost P state id = .ok view ∧ SameGroups state next ∧
      Carries P (fun scope other => scope = view.host.scope ∧ other = id) False state next ∧
      ∀ host row, Holds P next host row → host.scope = view.host.scope → host.id = id →
        host.payload.groupId = payload.groupId := by
  obtain ⟨view, effective, checked, _, resolved, _, previous, record, rewrites⟩ := updateHost_cases updated
  obtain ⟨found, _⟩ := checkedHost_cases checked
  obtain ⟨_, row, _, _, shown, named⟩ := getHost_shown found
  have settings := same view found
  have effective_eq : effective.payload = payload := by
    rw [← effectiveOf_eq resolved]
    exact effectiveOf_own own
  have endpoint : view.effectivePayload.hostname = payload.hostname ∧
      view.effectivePayload.port = payload.port ∧ view.effectivePayload.hostKey = payload.hostKey := by
    have hostname := congrArg HostPayload.hostname settings
    have port := congrArg HostPayload.port settings
    have pin := congrArg HostPayload.hostKey settings
    exact ⟨hostname.symm, port.symm, pin.symm⟩
  have kept : keptPin view effective = payload.hostKey := by
    rw [keptPin, effective_eq, ← endpoint.2.2, shown.effective, effectiveOf_hostKey]
    simp [← shown.effective, endpoint.1, endpoint.2.1]
  have unchanged : { payload with hostKey := keptPin view effective } = payload := by rw [kept]
  rw [unchanged] at rewrites
  refine ⟨view, found, ?_, rewrites.carries shown named own settings, ?_⟩
  · rw [rewrites.written]
    exact .setHostRow
  · intro host row' holds scope sameId
    obtain ⟨_, _, _, _, written, _⟩ := orderedRecord_spec rewrites.ordered
    have held := holds.held
    rw [rewrites.written, scope, sameId, hostRecords_setHostRow_self rewrites.held] at held
    cases held
    rw [payload_of_written written holds.decodes]

/-- Where a move writes. -/
def movedAt (origin destination : HostScope) (id : String) (scope : HostScope) (other : String) : Prop :=
  other = id ∧ (scope = origin ∨ scope = destination)

theorem MovesHost.arrived {view : HostView} {source : LocalRecord} {destination : HostScope}
    {effective : EffectiveHost} {record : Record} {seq : Nat}
    (moves : MovesHost P state id view destination now source effective record seq next)
    (writable : ensureScope state destination = .ok ()) :
    Holds P next { id, scope := destination, payload := materialize effective.payload }
      (cachedRow record seq destination) := by
  obtain ⟨hosts, listed⟩ := listed_of_transition moves.transition
  obtain ⟨_, _, _, live, written, _⟩ := orderedRecord_spec moves.ordered
  have open_ := readable_of_ensureScope writable
  have readable : destination ∈ readableScopes next := by
    rw [moves.written, SameScopes.setHostRow.readable, SameScopes.setHostRow.readable]
    exact open_
  refine holds_of_written listed readable ?_ live written
  rw [moves.written]
  apply hostRecords_setHostRow_readable
  rw [SameScopes.setHostRow.readable]
  exact open_

/-- The origin keeps a tombstone. -/
theorem MovesHost.left {view : HostView} {source : LocalRecord} {destination : HostScope}
    {effective : EffectiveHost} {record : Record} {seq : Nat}
    (moves : MovesHost P state id view destination now source effective record seq next) :
    ∃ row, (next.hostRecords view.host.scope)[recordKey .Host id]? = some row ∧ row.record.deleted = true := by
  rw [moves.written, hostRecords_setHostRow_ne]
  · exact ⟨_, hostRecords_setHostRow_self moves.held, rfl⟩
  · intro same
    exact moves.apart (Prod.mk.inj same).1.symm

theorem MovesHost.carries {view : HostView} {row source : LocalRecord} {destination : HostScope}
    {effective : EffectiveHost} {record : Record} {seq : Nat}
    (moves : MovesHost P state id view destination now source effective record seq next)
    (writable : ensureScope state destination = .ok ()) (shown : Shown P state view row)
    (named : view.host.id = id) : Carries P (movedAt view.host.scope destination id) True state next := by
  have groups : SameGroups state next := by
    rw [moves.written]
    exact SameGroups.trans .setHostRow .setHostRow
  -- only the two slots of the moved host are written
  have spares (scope : HostScope) (other : String) (spared : ¬ movedAt view.host.scope destination id scope other) :
      (next.hostRecords scope)[recordKey .Host other]? = (state.hostRecords scope)[recordKey .Host other]? := by
    have apart (place : HostScope) (among : place = view.host.scope ∨ place = destination) :
        (place, recordKey .Host id) ≠ (scope, recordKey .Host other) := by
      intro equal
      obtain ⟨scopes, keys⟩ := Prod.mk.inj equal
      refine spared ⟨(recordKey_injective keys).2.symm, ?_⟩
      rw [← scopes]
      exact among
    rw [moves.written, hostRecords_setHostRow_ne (apart _ (.inr rfl)), hostRecords_setHostRow_ne (apart _ (.inl rfl))]
  have arrived := moves.arrived writable
  refine ⟨groups.toSameScopes, spares, ?_, ?_, ?_⟩
  · intro host row' holds
    by_cases touched : movedAt view.host.scope destination id host.scope host.id
    · obtain ⟨sameId, placed⟩ := touched
      obtain here | there := placed
      · obtain rfl := (holds.unique shown.holds here (sameId.trans named.symm)).1
        refine ⟨_, _, arrived, named.symm, .inl trivial, ?_⟩
        rw [effectiveOf_own rfl, ← effectiveOf_eq moves.resolved]
        rfl
      · -- the destination only holds a tombstone
        have gone := moves.vacant row' (by rw [← there, ← sameId]; exact holds.held)
        rw [live_of_decodes holds.decodes] at gone
        cases gone
    · refine ⟨host, row', ⟨groups.readable ▸ holds.scope, ?_, holds.decodes⟩, rfl, .inr rfl, ?_⟩
      · rw [spares _ _ touched]
        exact holds.held
      · rw [groups.effectiveOf holds.scope]
  · -- a host that is there after the move is the moved one or was there before
    intro host row' holds
    rw [moves.written] at holds
    obtain ⟨_, sameId, _⟩ | before := holds.of_setHostRow
    · exact ⟨view.host, row, shown.holds, named.trans sameId.symm, .inl trivial⟩
    · obtain ⟨_, _, rfl⟩ | before := before.of_setHostRow
      · have gone := live_of_decodes before.decodes
        cases gone
      · exact ⟨host, row', before, rfl, .inr rfl⟩
  · intro host row' holds _
    exact groups.effectiveOf holds.scope

theorem moveHost_carries {expected : RecordRevision} {destination : HostScope}
    (moved : moveHost P state id expected destination now = .ok next) :
    ∃ view, getHost P state id = .ok view ∧
      Carries P (movedAt view.host.scope destination id) (view.host.scope ≠ destination) state next := by
  obtain ⟨view, checked, writable, unmoved | ⟨source, effective, record, seq, moves⟩⟩ := moveHost_moves moved
  · obtain ⟨_, rfl⟩ := unmoved
    exact ⟨view, (checkedHost_cases checked).1, .refl next⟩
  · obtain ⟨_, row, _, _, shown, named⟩ := getHost_shown (checkedHost_cases checked).1
    exact ⟨view, (checkedHost_cases checked).1,
      (moves.carries writable shown named).weaken (fun _ _ hit => hit) fun _ => moves.apart⟩

/-- A host found by its id is the only one shown with it. -/
theorem getHost_unique {view : HostView} {host : HostRecord} {row : LocalRecord}
    (found : getHost P state id = .ok view) (holds : Holds P state host row) (named : host.id = id) :
    host = view.host := by
  obtain ⟨hosts, listed, found⟩ := Result.bind_eq_ok.mp found
  obtain ⟨index, at_, found⟩ := Result.bind_eq_ok.mp found
  obtain ⟨other, member, rfl, _⟩ := exists_view listed holds
  obtain ⟨place, placed⟩ := List.mem_iff_getElem?.mp member
  obtain rfl := hostIndex_only (Result.mapError_eq_ok.mp at_) placed named
  simp only [placed] at found
  cases found
  rfl

theorem moveUnless_carries {view : HostView} {expected : RecordRevision} {destination : HostScope}
    (found : getHost P state id = .ok view)
    (moved : moveUnless P state id expected view.host.scope (some destination) now = .ok next) :
    Carries P (movedAt view.host.scope destination id) (view.host.scope ≠ destination) state next := by
  unfold moveUnless at moved
  split at moved
  · rename_i scope kept
    obtain ⟨same, _⟩ := Option.filter_eq_some_iff.mp kept
    cases same
    obtain ⟨other, found', carries⟩ := moveHost_carries moved
    rw [found] at found'
    cases found'
    exact carries
  · cases moved
    exact .refl state

/-- The scope a host ends in when it is given a group. -/
theorem setHostGroup_carries {expected : RecordRevision} {groupId : Option String}
    (grouped : setHostGroup P state id expected groupId now = .ok next) :
    ∃ view, getHost P state id = .ok view ∧ (next = state ∨ ∃ destination,
      groupDestination state view.host groupId = .ok destination ∧
      Carries P (movedAt view.host.scope destination id) (view.host.scope ≠ destination) state next) := by
  obtain ⟨view, found, grouped⟩ := Result.bind_eq_ok.mp grouped
  refine ⟨view, found, ?_⟩
  rw [Result.check_eq_ok] at grouped
  obtain ⟨_, grouped⟩ := grouped
  split at grouped
  · cases grouped
    exact .inl rfl
  · obtain ⟨destination, placed, grouped⟩ := Result.bind_eq_ok.mp grouped
    obtain ⟨moved, move, grouped⟩ := Result.bind_eq_ok.mp grouped
    obtain ⟨current, shown, updated⟩ := Result.bind_eq_ok.mp grouped
    refine .inr ⟨destination, placed, ?_⟩
    have first := moveUnless_carries found move
    have settings : ∀ view, getHost P moved id = .ok view →
        materialize (regrouped current.effectivePayload groupId) = materialize view.effectivePayload := by
      intro view found
      rw [shown] at found
      cases found
      rfl
    obtain ⟨there, found', _, second, _⟩ := updateHost_carries updated rfl settings
    rw [shown] at found'
    cases found'
    obtain ⟨_, row, _, _, currentShown, named⟩ := getHost_shown shown
    -- the host is where the move left it
    have place : movedAt view.host.scope destination id current.host.scope id := by
      by_contra apart
      have before : Holds P state current.host row := by
        refine ⟨first.readable ▸ currentShown.holds.scope, ?_, currentShown.holds.decodes⟩
        rw [← first.rows _ _ (by rw [named]; exact apart)]
        exact currentShown.holds.held
      have same := getHost_unique found before named
      exact apart ⟨rfl, .inl (by rw [same])⟩
    refine (first.trans second).weaken ?_ fun moves => moves.resolve_right fun never => never
    rintro scope other (hit | ⟨rfl, rfl⟩)
    · exact hit
    · exact place

/-! ## The groups below a group -/

/-- A live group row of a readable scope. -/
def LiveGroup (state : SyncStateV3) (scope : HostScope) (id : String) (found : GroupRecord) : Prop :=
  scope ∈ readableScopes state ∧ ∃ row, (state.groupRows scope)[recordKey .Group id]? = some row ∧
    decodeGroup row.record scope = .ok (.Live found)

/-- The group and its live descendants in its scope. -/
inductive Below (state : SyncStateV3) (scope : HostScope) (root : String) : String → Prop where
  | root {found : GroupRecord} (live : LiveGroup state scope root found) : Below state scope root root
  | child {id parent : String} {found : GroupRecord} (live : LiveGroup state scope id found)
      (parented : found.payload.parentId = some parent) (above : Below state scope root parent) :
      Below state scope root id

theorem listGroups_live {groups : List GroupView} (listed : listGroups state = .ok groups) {view : GroupView}
    (member : view ∈ groups) : LiveGroup state view.group.scope view.group.id view.group := by
  obtain ⟨lists, mapped, flat⟩ := Result.bind_eq_ok.mp listed
  obtain rfl : lists.flatten = groups := Except.ok.inj flat
  obtain ⟨views, inLists, inViews⟩ := List.mem_flatten.mp member
  obtain ⟨scope, readable, read⟩ := (Result.mem_mapM mapped).mp inLists
  obtain ⟨rows, section_, read⟩ := Result.bind_eq_ok.mp read
  rw [groupRecords_of_readable readable] at section_
  cases section_
  obtain ⟨singles, mapped', flat⟩ := Result.bind_eq_ok.mp read
  obtain rfl : singles.flatten = views := Except.ok.inj flat
  obtain ⟨single, inSingles, inSingle⟩ := List.mem_flatten.mp inViews
  obtain ⟨⟨key, row⟩, inRows, ran⟩ := (Result.mem_mapM mapped').mp inSingles
  obtain ⟨placed, named⟩ := (readGroup_spec ran).2 view inSingle
  have decodes : decodeGroup row.record scope = .ok (.Live view.group) := by
    unfold readGroup at ran
    simp only at ran
    split at ran
    · cases ran
      cases inSingle
    · rw [Result.check_eq_ok] at ran
      obtain ⟨_, decoded, found, ran⟩ := ran.imp_right Result.bind_eq_ok.mp
      cases decoded with
      | Tombstone id =>
        cases ran
        cases inSingle
      | Live group =>
        cases ran
        obtain rfl := List.mem_singleton.mp inSingle
        exact Result.mapError_eq_ok.mp found
  rw [placed]
  refine ⟨readable, row, ?_, decodes⟩
  rw [← named]
  exact BTreeMap.mem_toList.mp inRows

theorem listGroups_complete {groups : List GroupView} (listed : listGroups state = .ok groups)
    {scope : HostScope} {found : GroupRecord} (live : LiveGroup state scope id found) :
    found.id = id ∧ found.scope = scope ∧ ∃ view ∈ groups, view.group = found := by
  obtain ⟨readable, row, held, decodes⟩ := live
  obtain ⟨lists, mapped, flat⟩ := Result.bind_eq_ok.mp listed
  obtain rfl : lists.flatten = groups := Except.ok.inj flat
  obtain ⟨views, read⟩ := Result.isOk_iff.mp (Result.mapM_isOk.mp (by rw [mapped]; rfl) scope readable)
  have inLists := (Result.mem_mapM mapped).mpr ⟨scope, readable, read⟩
  obtain ⟨rows, section_, read⟩ := Result.bind_eq_ok.mp read
  rw [groupRecords_of_readable readable] at section_
  cases section_
  obtain ⟨singles, mapped', flat⟩ := Result.bind_eq_ok.mp read
  obtain rfl : singles.flatten = views := Except.ok.inj flat
  have inRows := BTreeMap.mem_toList.mpr held
  obtain ⟨single, ran⟩ := Result.isOk_iff.mp (Result.mapM_isOk.mp (by rw [mapped']; rfl) _ inRows)
  have inSingles := (Result.mem_mapM mapped').mpr ⟨_, inRows, ran⟩
  obtain ⟨kind, _, sameId, placed, _⟩ := decodeGroup_live decodes
  unfold readGroup at ran
  simp only [kind, bne_self_eq_false, Bool.false_eq_true, if_false] at ran
  rw [Result.check_eq_ok, validateCache_isOk] at ran
  obtain ⟨cached, ran⟩ := ran
  simp only [decodes, Validated.toRepo, Except.mapError, Result.ok_bind] at ran
  cases ran
  have named : found.id = id := by
    rw [sameId]
    exact (recordKey_injective cached.key).2.symm
  have inGroups := List.mem_flatten.mpr
    ⟨_, inLists, List.mem_flatten.mpr ⟨_, inSingles, List.mem_singleton_self _⟩⟩
  exact ⟨named, placed, _, inGroups, rfl⟩

/-! ### The loop that collects them -/

/-- One pass adds every child of a removed group that it meets. -/
theorem removeChildren_spec (groups : List GroupView) (removed : BTreeMap Unit) :
    (∀ key : String, removed.contains key → (removeChildren groups removed).contains key) ∧
      (∀ view ∈ groups, ∀ parent, view.group.payload.parentId = some parent → removed.contains parent →
        (removeChildren groups removed).contains view.group.id) ∧
      ∀ holds : String → Prop, (∀ key, removed.contains key → holds key) →
        (∀ view ∈ groups, ∀ parent, view.group.payload.parentId = some parent → holds parent →
          holds view.group.id) →
        ∀ key, (removeChildren groups removed).contains key → holds key := by
  unfold removeChildren
  -- the induction follows the pass; `least` says that it adds nothing but descendants
  induction groups generalizing removed with
  | nil => exact ⟨fun _ member => member, by simp, fun _ start _ => start⟩
  | cons view rest ih =>
    rw [List.foldl_cons]
    set step := if (view.group.payload.parentId.any fun parent => removed.contains parent) = true then
      removed.insert view.group.id () else removed with step_eq
    have grows (key : String) (member : removed.contains key) : step.contains key := by
      rw [step_eq]
      split
      · simp [member]
      · exact member
    obtain ⟨mono, children, least⟩ := ih step
    refine ⟨fun key member => mono key (grows key member), ?_, ?_⟩
    · intro other member parent parented inRemoved
      obtain rfl | later := List.mem_cons.mp member
      · apply mono
        have hit : (other.group.payload.parentId.any fun parent => removed.contains parent) = true := by
          simpa [parented] using inRemoved
        rw [step_eq, if_pos hit]
        simp
      · exact children other later parent parented (grows parent inRemoved)
    · intro holds start closed key member
      refine least holds ?_ (fun other inRest => closed other (List.mem_cons_of_mem _ inRest)) key member
      intro key member
      rw [step_eq] at member
      split at member
      · rename_i hit
        rw [Option.any_eq_true] at hit
        obtain ⟨parent, parented, inRemoved⟩ := hit
        rw [Std.ExtTreeMap.contains_insert, Bool.or_eq_true] at member
        obtain here | before := member
        · have same : view.group.id = key := by simpa using here
          rw [← same]
          exact closed view List.mem_cons_self parent parented (start parent inRemoved)
        · exact start key before
      · exact start key member

theorem size_le_length {removed : BTreeMap Unit} {all : List String}
    (within : ∀ key, removed.contains key → key ∈ all) : removed.size ≤ all.length := by
  have keys := BTreeMap.toList_keys_nodup removed
  have subset : removed.toList.map Prod.fst ⊆ all := by
    intro key member
    obtain ⟨⟨key', value⟩, inList, rfl⟩ := List.mem_map.mp member
    apply within
    rw [BTreeMap.contains_eq, BTreeMap.mem_toList.mp inList]
    rfl
  have bound := (keys.subperm subset).length_le
  rwa [List.length_map, Std.ExtTreeMap.length_toList] at bound

/-- A pass that adds nothing has met only groups that were removed already. -/
theorem contains_of_size {removed next : BTreeMap Unit}
    (grows : ∀ key : String, removed.contains key → next.contains key) (size : next.size = removed.size)
    {key : String} (member : next.contains key) : removed.contains key := by
  have fewer : next.size ≤ (removed.toList.map Prod.fst).length := by
    rw [List.length_map, Std.ExtTreeMap.length_toList, size]
  have mem_keys {m : BTreeMap Unit} {key : String} : key ∈ m.toList.map Prod.fst ↔ m.contains key := by
    rw [BTreeMap.contains_eq, Option.isSome_iff_exists, List.mem_map]
    constructor
    · rintro ⟨⟨key, value⟩, inList, rfl⟩
      exact ⟨value, BTreeMap.mem_toList.mp inList⟩
    · rintro ⟨value, held⟩
      exact ⟨(key, value), BTreeMap.mem_toList.mpr held, rfl⟩
  have subset : removed.toList.map Prod.fst ⊆ next.toList.map Prod.fst :=
    fun key member => mem_keys.mpr (grows key (mem_keys.mp member))
  have perm := ((BTreeMap.toList_keys_nodup removed).subperm subset).perm_of_length_le (by
    rw [List.length_map, Std.ExtTreeMap.length_toList]
    exact fewer)
  exact mem_keys.mp (perm.mem_iff.mpr (mem_keys.mpr member))

theorem removedSubtree_spec (groups : List GroupView) (all : List String) (fuel : Nat)
    (removed : BTreeMap Unit) (within : ∀ key, removed.contains key → key ∈ all) (ids : ∀ view ∈ groups, view.group.id ∈ all)
    (enough : all.length < fuel + removed.size) :
    (∀ key : String, removed.contains key → (removedSubtree groups fuel removed).contains key) ∧
      (∀ view ∈ groups, ∀ parent, view.group.payload.parentId = some parent →
        (removedSubtree groups fuel removed).contains parent →
        (removedSubtree groups fuel removed).contains view.group.id) ∧
      ∀ holds : String → Prop, (∀ key, removed.contains key → holds key) →
        (∀ view ∈ groups, ∀ parent, view.group.payload.parentId = some parent → holds parent →
          holds view.group.id) →
        ∀ key, (removedSubtree groups fuel removed).contains key → holds key := by
  induction fuel generalizing removed with
  | zero =>
    have bound := size_le_length within
    omega
  | succ fuel ih =>
    obtain ⟨mono, children, least⟩ := removeChildren_spec groups removed
    rw [removedSubtree]
    split
    · rename_i settled
      refine ⟨mono, fun view member parent parented inNext => ?_, least⟩
      exact children view member parent parented (contains_of_size mono settled inNext)
    · rename_i grew
      set next := removeChildren groups removed
      have within' : ∀ key, next.contains key → key ∈ all :=
        least (· ∈ all) within fun view member _ _ _ => ids view member
      have larger : removed.size ≤ next.size := by
        have keys : ∀ key, removed.contains key → key ∈ next.toList.map Prod.fst := by
          intro key member
          have inNext := mono key member
          rw [BTreeMap.contains_eq, Option.isSome_iff_exists] at inNext
          obtain ⟨value, held⟩ := inNext
          exact List.mem_map.mpr ⟨(key, value), BTreeMap.mem_toList.mpr held, rfl⟩
        have bound := size_le_length keys
        rwa [List.length_map, Std.ExtTreeMap.length_toList] at bound
      obtain ⟨start, closed, minimal⟩ := ih next within' (by omega)
      refine ⟨fun key member => start key (mono key member), closed, fun holds first step => ?_⟩
      exact minimal holds (least holds first step) step

/-- The loop finds exactly the live groups below the one it starts with. -/
theorem removedGroups_iff {groups : List GroupView} {scope : HostScope} {root : GroupRecord}
    (listed : listGroups state = .ok groups) (live : LiveGroup state scope id root) {key : String} :
    (removedGroups groups scope id).contains key = true ↔ Below state scope id key := by
  unfold removedGroups
  set siblings := groups.filter fun view => view.group.scope == scope with siblings_eq
  have start_iff (key : String) : ((∅ : BTreeMap Unit).insert id ()).contains key = true ↔ id = key := by
    simp [Std.ExtTreeMap.contains_insert]
  have spec := removedSubtree_spec siblings (id :: siblings.map (·.group.id)) (siblings.length + 1)
    ((∅ : BTreeMap Unit).insert id ())
    (fun key member => by simp [(start_iff key).mp member])
    (fun view member => List.mem_cons_of_mem _ (List.mem_map_of_mem member))
    (by simp [Std.ExtTreeMap.size_insert])
  obtain ⟨start, closed, least⟩ := spec
  constructor
  · refine least (Below state scope id) ?_ ?_ key
    · intro key member
      rw [← (start_iff key).mp member]
      exact .root live
    · intro view member parent parented above
      obtain ⟨inGroups, placed⟩ := List.mem_filter.mp member
      have found := listGroups_live listed inGroups
      rw [beq_iff_eq.mp placed] at found
      exact .child found parented above
  · intro below
    induction below with
    | root _ => exact start id ((start_iff id).mpr rfl)
    | child found parented _ ih =>
      obtain ⟨named, placed, view, inGroups, rfl⟩ := listGroups_complete listed found
      rw [← named]
      exact closed view (List.mem_filter.mpr ⟨inGroups, by simpa using placed⟩) _ parented ih

/-! ## Deleting groups -/

/-- The steps of `delete_group` before `finish`. -/
structure DeletesGroups (P : Primitives) (state : SyncStateV3) (id : String) (now : Nat) (scope : HostScope)
    (library : RepositorySnapshot) (groups : List GroupView) (middle candidate : SyncStateV3) : Prop where
  root : ∃ found, LiveGroup state scope id found
  read : snapshot P state = .ok library
  listed : listGroups state = .ok groups
  members : (groupMembers library scope (removedGroups groups scope id)).foldlM
    (materializeHost P state now) state = .ok middle
  tombstones : ((removedGroups groups scope id).toList.map (·.1)).foldlM
    (removeGroup state scope now) middle = .ok candidate

theorem deletedGroups_cases {token : RepositorySnapshot → String} {expected : RecordRevision}
    {reviewed : Option String} {scope : HostScope}
    (deleted : deletedGroups P token state id expected reviewed now = .ok (scope, next)) :
    ∃ library groups middle, DeletesGroups P state id now scope library groups middle next := by
  obtain ⟨root, checked, deleted⟩ := Result.bind_eq_ok.mp deleted
  obtain ⟨library, read, deleted⟩ := Result.bind_eq_ok.mp deleted
  rw [Result.check_eq_ok, Result.check_eq_ok] at deleted
  obtain ⟨_, _, deleted⟩ := deleted
  obtain ⟨groups, listed, deleted⟩ := Result.bind_eq_ok.mp deleted
  obtain ⟨middle, members, deleted⟩ := Result.bind_eq_ok.mp deleted
  obtain ⟨candidate, tombstones, same⟩ := Result.bind_eq_ok.mp deleted
  cases same
  refine ⟨library, groups, middle, ?_, read, listed, members, tombstones⟩
  obtain ⟨all, _, checked⟩ := Result.bind_eq_ok.mp checked
  split at checked
  · cases checked
  · rw [Result.check_eq_ok, Result.check_eq_ok] at checked
    obtain ⟨_, _, checked⟩ := checked
    obtain ⟨found, grouped, same⟩ := Result.bind_eq_ok.mp checked
    cases same
    exact ⟨found, group_eq_ok grouped⟩
  · cases checked

/-- What is known while the members of the removed groups are rewritten. -/
structure Emptying (P : Primitives) (state : SyncStateV3) (done : List HostView) (current : SyncStateV3) :
    Prop extends SameGroups state current where
  carries : Carries P (fun scope id => ∃ view ∈ done, view.host.scope = scope ∧ view.host.id = id) False
    state current
  left : ∀ view ∈ done, ∀ host row, Holds P current host row → host.scope = view.host.scope →
    host.id = view.host.id → host.payload.groupId = none

theorem Emptying.step {done : List HostView} {view : HostView} {row : LocalRecord} {current : SyncStateV3}
    (emptying : Emptying P state done current) (shown : Shown P state view row)
    (unmet : ¬ ∃ other ∈ done, other.host.scope = view.host.scope ∧ other.host.id = view.host.id)
    (materialized : materializeHost P state now current view = .ok next) :
    Emptying P state (done ++ [view]) next := by
  obtain ⟨resolved, resolves, updated⟩ := Result.bind_eq_ok.mp materialized
  have here := emptying.carries.holds shown.holds unmet
  have settings : ∀ found, getHost P current view.host.id = .ok found →
      materialize (materialize resolved.payload) = materialize found.effectivePayload := by
    intro found gotten
    obtain ⟨_, _, _, _, foundShown, _⟩ := getHost_shown gotten
    rw [foundShown.effective, ← getHost_unique gotten here rfl,
      emptying.toSameGroups.effectiveOf shown.holds.scope, effectiveOf_eq resolves]
    rfl
  obtain ⟨found, gotten, groups, carries, left⟩ := updateHost_carries updated rfl settings
  rw [← getHost_unique gotten here rfl] at carries left
  refine ⟨emptying.toSameGroups.trans groups, (emptying.carries.trans carries).weaken ?_ (by simp), ?_⟩
  · rintro scope other (⟨met, member, place⟩ | ⟨rfl, rfl⟩)
    · exact ⟨met, List.mem_append_left _ member, place⟩
    · exact ⟨view, by simp, rfl, rfl⟩
  · intro met member host row' holds scope sameId
    by_cases same : host.scope = view.host.scope ∧ host.id = view.host.id
    · exact left host row' holds same.1 same.2
    · obtain earlier | last := List.mem_append.mp member
      · refine emptying.left met earlier host row' ?_ scope sameId
        refine ⟨groups.readable ▸ holds.scope, ?_, holds.decodes⟩
        rw [← carries.rows _ _ same]
        exact holds.held
      · obtain rfl := List.mem_singleton.mp last
        exact (same ⟨scope, sameId⟩).elim

theorem DeletesGroups.emptied {scope : HostScope} {library : RepositorySnapshot} {groups : List GroupView}
    {middle : SyncStateV3} (deletes : DeletesGroups P state id now scope library groups middle next) :
    Emptying P state (groupMembers library scope (removedGroups groups scope id)) middle := by
  have listed : listHosts P state = .ok library.hosts := by
    rw [listHosts, deletes.read]
    rfl
  have places : ((groupMembers library scope (removedGroups groups scope id)).map
      fun view => (view.host.scope, view.host.id)).Nodup :=
    (listHosts_spec listed).1.sublist (List.filter_sublist.map _)
  refine Result.foldlM_invariant (fun done current => Emptying P state done current)
    ⟨.refl state, .refl state, by simp⟩ ?_ deletes.members
  intro done current view rest after items emptying step
  have inMembers : view ∈ groupMembers library scope (removedGroups groups scope id) := by
    rw [items]
    simp
  obtain ⟨row, shown⟩ := shown_of_mem listed (List.mem_filter.mp inMembers).1
  refine emptying.step shown ?_ step
  -- the snapshot shows every host once
  rintro ⟨other, member, sameScope, sameId⟩
  rw [items, List.map_append, List.map_cons] at places
  have apart := List.disjoint_of_nodup_append places (List.mem_map_of_mem member)
  exact apart (by simp [sameScope, sameId])

theorem groupRows_setGroupRow_ne {scope scope' : HostScope} {id' : String} {row : LocalRecord}
    (apart : ¬ (scope' = scope ∧ id' = id)) :
    ((state.setGroupRow scope (recordKey .Group id) row).groupRows scope')[recordKey .Group id']? =
      (state.groupRows scope')[recordKey .Group id']? := by
  have keys (same : recordKey .Group id = recordKey .Group id') : id' = id := (recordKey_injective same).2.symm
  cases scope with
  | «Local» =>
    cases scope' with
    | «Local» => exact BTreeMap.get?_insert_ne _ _ fun same => apart ⟨rfl, keys same⟩
    | Space spaceId => rfl
  | Space spaceId =>
    cases scope' with
    | «Local» =>
      simp only [SyncStateV3.setGroupRow, SyncStateV3.setSpaceRow, SyncStateV3.groupRows]
      split <;> rfl
    | Space other =>
      apply spaceRecords_setSpaceRow_ne
      intro same
      obtain ⟨rfl, equal⟩ := Prod.mk.inj same
      exact apart ⟨rfl, keys equal⟩

theorem groupRows_setGroupRow_self {scope : HostScope} {key : String} {row : LocalRecord}
    (readable : scope ∈ readableScopes state) :
    ((state.setGroupRow scope key row).groupRows scope)[key]? = some row := by
  cases scope with
  | «Local» => exact BTreeMap.get?_insert_self _ _ _
  | Space spaceId =>
    obtain ⟨space, found, _⟩ := mem_readableScopes_space.mp readable
    exact spaceRecords_setSpaceRow_self found

/-- What is known while the removed groups get their tombstones. -/
structure Burying (state middle : SyncStateV3) (scope : HostScope) (done : List String)
    (current : SyncStateV3) : Prop extends SameHosts middle current where
  buried : ∀ id ∈ done, ∃ row, (current.groupRows scope)[recordKey .Group id]? = some row ∧
    row.record.deleted = true
  spared : ∀ scope' id, ¬ (scope' = scope ∧ id ∈ done) →
    (current.groupRows scope')[recordKey .Group id]? = (middle.groupRows scope')[recordKey .Group id]?

theorem Burying.step {middle current : SyncStateV3} {scope : HostScope} {done : List String}
    (burying : Burying state middle scope done current) (scopes : SameScopes state middle)
    (removed : removeGroup state scope now current id = .ok next) :
    Burying state middle scope (done ++ [id]) next := by
  obtain ⟨found, grouped, put⟩ := Result.bind_eq_ok.mp removed
  have readable := (group_eq_ok grouped).1
  have readable' : scope ∈ readableScopes current := by
    rw [burying.readable, scopes.readable]
    exact readable
  rw [putGroup, groupRecords_of_readable readable, Result.ok_bind] at put
  split at put
  · cases put
  obtain ⟨record, ordered, put⟩ := Result.bind_eq_ok.mp put
  cases put
  obtain ⟨_, _, _, gone, _⟩ := orderedRecord_spec ordered
  refine ⟨burying.toSameHosts.trans .setGroupRow, ?_, ?_⟩
  · intro other member
    by_cases same : other = id
    · subst same
      exact ⟨_, groupRows_setGroupRow_self readable', gone⟩
    · obtain earlier | last := List.mem_append.mp member
      · rw [groupRows_setGroupRow_ne fun equal => same equal.2]
        exact burying.buried other earlier
      · exact (same (List.mem_singleton.mp last)).elim
  · intro scope' other apart
    rw [groupRows_setGroupRow_ne]
    · exact burying.spared scope' other fun both => apart ⟨both.1, List.mem_append_left _ both.2⟩
    · rintro ⟨rfl, rfl⟩
      exact apart ⟨rfl, by simp⟩

theorem DeletesGroups.burying {scope : HostScope} {library : RepositorySnapshot} {groups : List GroupView}
    {middle : SyncStateV3} (deletes : DeletesGroups P state id now scope library groups middle next) :
    Burying state middle scope ((removedGroups groups scope id).toList.map (·.1)) next := by
  have scopes := deletes.emptied.toSameScopes
  refine Result.foldlM_invariant (fun done current => Burying state middle scope done current)
    ⟨⟨.refl middle, fun _ _ => rfl⟩, by simp, fun _ _ _ => rfl⟩ ?_ deletes.tombstones
  intro done current key rest after _ burying step
  exact burying.step scopes step

/-- Walking up from a group that is not removed meets no removed group. -/
theorem ancestorLoop_avoids {first second : SyncStateV3} {scope : HostScope} (removed : String → Prop)
    (same : ∀ id, ¬ removed id → group second scope id = group first scope id)
    (closed : ∀ id found parent, group first scope id = .ok found → found.payload.parentId = some parent →
      removed parent → removed id)
    (fuel : Nat) (path : List GroupRecord) (seen : List String) (id : Option String)
    (start : ∀ group, id = some group → ¬ removed group) :
    ancestorLoop second scope fuel path seen id = ancestorLoop first scope fuel path seen id := by
  induction fuel generalizing path seen id with
  | zero => cases id <;> rfl
  | succ fuel ih =>
    cases id with
    | none => rfl
    | some key =>
      have free := start key rfl
      simp only [ancestorLoop, same key free]
      cases found : group first scope key with
      | error error => rfl
      | ok group =>
        simp only [Result.ok_bind]
        rw [ih]
        intro parent parented
        exact fun gone => free (closed key group parent found parented gone)

theorem DeletesGroups.removed_iff {scope : HostScope} {library : RepositorySnapshot} {groups : List GroupView}
    {middle : SyncStateV3} (deletes : DeletesGroups P state id now scope library groups middle next)
    {key : String} :
    key ∈ (removedGroups groups scope id).toList.map (·.1) ↔ Below state scope id key := by
  obtain ⟨found, live⟩ := deletes.root
  rw [← removedGroups_iff deletes.listed live, BTreeMap.contains_eq, Option.isSome_iff_exists, List.mem_map]
  constructor
  · rintro ⟨⟨key, value⟩, inList, rfl⟩
    exact ⟨value, BTreeMap.mem_toList.mp inList⟩
  · rintro ⟨value, held⟩
    exact ⟨(key, value), BTreeMap.mem_toList.mpr held, rfl⟩

/-- The hosts a group deletion rewrites. -/
def memberOf (P : Primitives) (state : SyncStateV3) (scope : HostScope) (root : String)
    (place : HostScope) (id : String) : Prop :=
  place = scope ∧ ∃ host row groupId, Holds P state host row ∧ host.scope = scope ∧ host.id = id ∧
    host.payload.groupId = some groupId ∧ Below state scope root groupId

theorem DeletesGroups.member_iff {scope : HostScope} {library : RepositorySnapshot} {groups : List GroupView}
    {middle : SyncStateV3} (deletes : DeletesGroups P state id now scope library groups middle next)
    {place : HostScope} {host : String} :
    (∃ view ∈ groupMembers library scope (removedGroups groups scope id),
      view.host.scope = place ∧ view.host.id = host) ↔ memberOf P state scope id place host := by
  have listed : listHosts P state = .ok library.hosts := by
    rw [listHosts, deletes.read]
    rfl
  obtain ⟨found, live⟩ := deletes.root
  constructor
  · rintro ⟨view, member, rfl, rfl⟩
    obtain ⟨inHosts, grouped⟩ := List.mem_filter.mp member
    obtain ⟨row, shown⟩ := shown_of_mem listed inHosts
    simp only [Bool.and_eq_true, beq_iff_eq, Option.any_eq_true] at grouped
    obtain ⟨placed, groupId, parented, removed⟩ := grouped
    exact ⟨placed, view.host, row, groupId, shown.holds, placed, rfl, parented,
      (removedGroups_iff deletes.listed live).mp removed⟩
  · rintro ⟨rfl, host, row, groupId, holds, placed, rfl, parented, below⟩
    obtain ⟨view, inHosts, rfl, _⟩ := exists_view listed holds
    refine ⟨view, List.mem_filter.mpr ⟨inHosts, ?_⟩, placed, rfl⟩
    simp only [Bool.and_eq_true, beq_iff_eq, Option.any_eq_true]
    exact ⟨placed, groupId, parented, (removedGroups_iff deletes.listed live).mpr below⟩

/-- The hosts that are left resolve as before the groups went. -/
theorem DeletesGroups.effective {scope : HostScope} {library : RepositorySnapshot} {groups : List GroupView}
    {middle : SyncStateV3} (deletes : DeletesGroups P state id now scope library groups middle next)
    {host : HostRecord} {row : LocalRecord} (holds : Holds P middle host row) :
    effectiveOf P next host = effectiveOf P middle host := by
  have emptying := deletes.emptied
  have burying := deletes.burying
  have unchanged (place : HostScope) (readable : place ∈ readableScopes middle) (key : String)
      (apart : ¬ (place = scope ∧ Below state scope id key)) : group next place key = group middle place key := by
    apply burying.toSameScopes.group readable
    apply burying.spared
    rw [deletes.removed_iff]
    exact apart
  have paths : ancestorPath next host.scope host.payload.groupId =
      ancestorPath middle host.scope host.payload.groupId := by
    refine ancestorLoop_avoids (fun key => host.scope = scope ∧ Below state scope id key)
      (unchanged host.scope holds.scope) ?_ _ _ _ _ ?_
    · rintro key found parent grouped parented ⟨placed, below⟩
      have readable : host.scope ∈ readableScopes state := emptying.readable ▸ holds.scope
      rw [emptying.toSameScopes.group readable (emptying.groups host.scope key), placed] at grouped
      exact ⟨placed, .child (group_eq_ok grouped) parented below⟩
    · rintro groupId grouped ⟨placed, below⟩
      -- a host of a removed group has left it, and no other host is in one
      by_cases touched : memberOf P state scope id host.scope host.id
      · obtain ⟨view, member, viewScope, viewId⟩ := deletes.member_iff.mpr touched
        rw [emptying.left view member host row holds viewScope.symm viewId.symm] at grouped
        cases grouped
      · have spared := emptying.carries.rows host.scope host.id fun met => touched (deletes.member_iff.mp met)
        have before : Holds P state host row := by
          refine ⟨emptying.readable ▸ holds.scope, ?_, holds.decodes⟩
          rw [← spared]
          exact holds.held
        exact touched ⟨placed, host, row, groupId, before, placed, rfl, grouped, below⟩
  simp only [effectiveOf, resolveEffective, paths]

theorem DeletesGroups.carries {scope : HostScope} {library : RepositorySnapshot} {groups : List GroupView}
    {middle : SyncStateV3} (deletes : DeletesGroups P state id now scope library groups middle next) :
    Carries P (memberOf P state scope id) False state next := by
  have burying := deletes.burying
  have there {host : HostRecord} {row : LocalRecord} (holds : Holds P middle host row) :
      Holds P next host row := by
    refine ⟨burying.readable ▸ holds.scope, ?_, holds.decodes⟩
    rw [burying.hosts]
    exact holds.held
  have last : Carries P (fun _ _ => False) False middle next := by
    refine ⟨burying.toSameScopes, fun scope id _ => burying.hosts scope id, ?_, ?_, ?_⟩
    · intro host row holds
      exact ⟨host, row, there holds, rfl, .inr rfl, by rw [deletes.effective holds]⟩
    · intro host row holds
      exact ⟨host, row, burying.toSameHosts.holds holds, rfl, .inr rfl⟩
    · intro host row holds _
      exact deletes.effective holds
  refine (deletes.emptied.carries.trans last).weaken ?_ (by simp)
  rintro place host (met | never)
  · exact deletes.member_iff.mp met
  · exact never.elim

/-- Where every host keeps its settings, `finish` clears no pin. -/
theorem finish_unchanged {touched : HostScope → String → Prop} {candidate : SyncStateV3} {scope : HostScope}
    (carries : Carries P touched False state candidate)
    (finished : finish P state candidate scope now = .ok next) : next = candidate := by
  obtain ⟨old, new, _, _, listed, listed', cleared⟩ := finish_cases finished
  have unmoved : ∀ view ∈ new, portChanged old view = false := by
    intro view member
    obtain ⟨row, shown⟩ := shown_of_mem listed' member
    unfold portChanged
    cases found : old.find? fun other =>
        other.host.id == view.host.id && other.host.scope == view.host.scope with
    | none => simp
    | some other =>
      have matching := List.find?_some found
      simp only [Bool.and_eq_true, beq_iff_eq] at matching
      obtain ⟨otherRow, otherShown⟩ := shown_of_mem listed (List.mem_of_find?_eq_some found)
      obtain ⟨host', row', holds', sameId, sameScope, settings⟩ :=
        carries.forward other.host otherRow otherShown.holds
      have same : host' = view.host := by
        refine (holds'.unique shown.holds ?_ (sameId.trans matching.1)).1
        exact (sameScope.resolve_left not_false).trans matching.2
      rw [same] at settings
      have port := congrArg HostPayload.port settings
      change (effectiveOf P candidate view.host).port = (effectiveOf P state other.host).port at port
      simp [shown.effective, otherShown.effective, port]
  have idle : new.foldlM (clearPin old now) candidate = .ok candidate := by
    refine Result.foldlM_fixed fun view member => ?_
    simp [clearPin, unmoved view member]
  rw [idle] at cleared
  exact (Except.ok.inj cleared).symm

/-! ## The edits -/

/-- The edits that take hosts out of a scope or a group. -/
inductive Relocation where
  | moveHost (id : String) (expected : RecordRevision) (destination : HostScope)
  | deleteGroup (id : String) (expected : RecordRevision) (reviewed : Option String)
  | setHostGroup (id : String) (expected : RecordRevision) (groupId : Option String)

namespace Relocation

def run (P : Primitives) (token : RepositorySnapshot → String) (state : SyncStateV3) (now : Nat) :
    Relocation → Repo SyncStateV3
  | moveHost id expected destination => Sync.moveHost P state id expected destination now
  | deleteGroup id expected reviewed => Sync.deleteGroup P token state id expected reviewed now
  | setHostGroup id expected groupId => Sync.setHostGroup P state id expected groupId now

/-- The host rows the edit may write. -/
def touches (P : Primitives) (state : SyncStateV3) : Relocation → HostScope → String → Prop
  | moveHost id _ destination, scope, other =>
    ∃ view, getHost P state id = .ok view ∧ movedAt view.host.scope destination id scope other
  | deleteGroup id _ _, scope, other => memberOf P state scope id scope other
  | setHostGroup id _ groupId, scope, other =>
    ∃ view destination, getHost P state id = .ok view ∧
      groupDestination state view.host groupId = .ok destination ∧
      movedAt view.host.scope destination id scope other

/-- Whether the edit takes a host to another scope. -/
def moves (P : Primitives) (state : SyncStateV3) : Relocation → Prop
  | moveHost id _ destination => ∃ view, getHost P state id = .ok view ∧ view.host.scope ≠ destination
  | deleteGroup _ _ _ => False
  | setHostGroup id _ groupId => ∃ view destination, getHost P state id = .ok view ∧
      groupDestination state view.host groupId = .ok destination ∧ view.host.scope ≠ destination

/-- What else the edit leaves: a moved host once and in its destination, a tombstone where it was, and
tombstones for exactly the named group and the groups below it. -/
def Leaves (P : Primitives) (state next : SyncStateV3) : Relocation → Prop
  | moveHost id _ destination => ∀ view, getHost P state id = .ok view → view.host.scope ≠ destination →
      (∃ host row, Holds P next host row ∧ host.id = id) ∧
      (∀ host row, Holds P next host row → host.id = id → host.scope = destination) ∧
      ∃ row, (next.hostRecords view.host.scope)[recordKey .Host id]? = some row ∧ row.record.deleted = true
  | deleteGroup id _ _ => ∃ scope, Below state scope id id ∧
      (∀ key, Below state scope id key → ∃ row,
        (next.groupRows scope)[recordKey .Group key]? = some row ∧ row.record.deleted = true) ∧
      ∀ place key, ¬ (place = scope ∧ Below state scope id key) →
        (next.groupRows place)[recordKey .Group key]? = (state.groupRows place)[recordKey .Group key]?
  | setHostGroup _ _ _ => True

end Relocation

theorem moveHost_leaves {expected : RecordRevision} {destination : HostScope}
    (moved : moveHost P state id expected destination now = .ok next) :
    (Relocation.moveHost id expected destination).Leaves P state next := by
  intro view found apart
  obtain ⟨other, checked, writable, ⟨same, _⟩ | ⟨source, effective, record, seq, moves⟩⟩ := moveHost_moves moved
  · rw [(checkedHost_cases checked).1] at found
    cases found
    exact (apart same).elim
  · have gotten := (checkedHost_cases checked).1
    rw [gotten] at found
    cases found
    obtain ⟨tombstone, buried, gone⟩ := moves.left
    refine ⟨⟨_, _, moves.arrived writable, rfl⟩, fun host row holds named => ?_, tombstone, buried, gone⟩
    have written := holds
    rw [moves.written] at written
    obtain ⟨placed, _⟩ | before := written.of_setHostRow
    · exact placed
    · obtain ⟨_, _, rfl⟩ | before := before.of_setHostRow
      · cases live_of_decodes before.decodes
      · -- the only host of this id was at the origin, where a tombstone is now
        have here := getHost_unique gotten before named
        have held := holds.held
        rw [named, here, buried] at held
        cases held
        rw [live_of_decodes holds.decodes] at gone
        cases gone

theorem deleteGroup_carries {token : RepositorySnapshot → String} {expected : RecordRevision}
    {reviewed : Option String} (deleted : deleteGroup P token state id expected reviewed now = .ok next) :
    Carries P ((Relocation.deleteGroup id expected reviewed).touches P state) False state next ∧
      (Relocation.deleteGroup id expected reviewed).Leaves P state next := by
  obtain ⟨⟨scope, candidate⟩, deleted, finished⟩ := Result.bind_eq_ok.mp deleted
  obtain ⟨library, groups, middle, deletes⟩ := deletedGroups_cases deleted
  have carries := deletes.carries
  obtain rfl := finish_unchanged carries finished
  refine ⟨carries.weaken ?_ fun never => never, scope, ?_, ?_, ?_⟩
  · rintro place other ⟨rfl, member⟩
    exact ⟨rfl, member⟩
  · obtain ⟨found, live⟩ := deletes.root
    exact .root live
  · intro key below
    exact deletes.burying.buried key (deletes.removed_iff.mpr below)
  · intro place key apart
    rw [deletes.burying.spared place key (by rw [deletes.removed_iff]; exact apart)]
    exact deletes.emptied.groups place key

/-- Moving a host, deleting its group or giving it another keeps its settings and its pin; no other
host is written or changes its settings, and hosts only change their scope where the edit says so. -/
theorem relocation_keeps_settings (P : Primitives) (token : RepositorySnapshot → String) (edit : Relocation)
    (state next : SyncStateV3) (now : Nat) (ran : edit.run P token state now = .ok next) :
    Carries P (edit.touches P state) (edit.moves P state) state next ∧ edit.Leaves P state next := by
  cases edit with
  | moveHost id expected destination =>
    obtain ⟨view, found, carries⟩ := moveHost_carries ran
    refine ⟨carries.weaken ?_ fun apart => ⟨view, found, apart⟩, moveHost_leaves ran⟩
    intro scope other hit
    exact ⟨view, found, hit⟩
  | deleteGroup id expected reviewed => exact deleteGroup_carries ran
  | setHostGroup id expected groupId =>
    obtain ⟨view, found, rfl | ⟨destination, placed, carries⟩⟩ := setHostGroup_carries ran
    · exact ⟨.refl next, trivial⟩
    · refine ⟨carries.weaken ?_ fun apart => ⟨view, destination, found, placed, apart⟩, trivial⟩
      intro scope other hit
      exact ⟨view, destination, found, placed, hit⟩

namespace Sample

/-- A pinned host that takes its port from a group. -/
def groupedLibrary : SyncStateV3 :=
  { library
      { space with
        records := ((∅ : BTreeMap LocalRecord).insert (recordKey .Group groupId) groupRow).insert
          (recordKey .Host hostId) memberHost } with
    version := GROUP_STATE_VERSION }

def groupDeletion : Relocation := .deleteGroup groupId (revision groupRow.record) (some "reviewed")

end Sample

theorem group_deletion_keeps_settings :
    ∃ next, Sample.groupDeletion.run Sample.memberTable (fun _ => "reviewed") Sample.groupedLibrary 100 = .ok next ∧
      Carries Sample.memberTable (Sample.groupDeletion.touches Sample.memberTable Sample.groupedLibrary)
        (Sample.groupDeletion.moves Sample.memberTable Sample.groupedLibrary) Sample.groupedLibrary next ∧
      Sample.groupDeletion.Leaves Sample.memberTable Sample.groupedLibrary next := by
  have succeeds : (Sample.groupDeletion.run Sample.memberTable (fun _ => "reviewed") Sample.groupedLibrary
      100).isOk = true := by decide +kernel
  obtain ⟨next, ran⟩ := Result.isOk_iff.mp succeeds
  exact ⟨next, ran, relocation_keeps_settings _ _ Sample.groupDeletion _ next 100 ran⟩

end Sshelter.Sync
