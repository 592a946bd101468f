import Sshelter.Verified.IncludedLibrary
import Sshelter.Verified.RouteExpansion

/-! # A library whose spaces have new ids

The same rows under other space ids show the same hosts.  What can differ is a group that a
newer revision hides: the evidence for it is not carried over, so a host that could not be
resolved because of it can be resolved afterwards.  Every other host keeps its settings, and
every route along such hosts is kept.
-/

namespace Sshelter.Sync

variable {P : Primitives} {mapping : BTreeMap String} {before after : SyncStateV3}

/-! ## Places -/

def movedScope (mapping : BTreeMap String) : HostScope → HostScope
  | .Local => .Local
  | .Space id => .Space ((mapping[id]?).getD id)

def movedHost (mapping : BTreeMap String) (host : HostRecord) : HostRecord :=
  { host with scope := movedScope mapping host.scope }

def movedGroup (mapping : BTreeMap String) (group : GroupRecord) : GroupRecord :=
  { group with scope := movedScope mapping group.scope }

/-- The rows of every space are those of the space it replaces, and nothing is known of the rows that
cannot be read. -/
structure SpacesMoved (mapping : BTreeMap String) (before after : SyncStateV3) : Prop where
  «local» : after.local = before.local
  chain : ∀ oldId newId : String, mapping[oldId]? = some newId → isChainId newId = true
  injective : ∀ a b newId : String, mapping[a]? = some newId → mapping[b]? = some newId → a = b
  readable : ∀ oldId : String, .Space oldId ∈ readableScopes before →
    ∃ newId, mapping[oldId]? = some newId ∧ .Space newId ∈ readableScopes after
  readableFrom : ∀ newId : String, .Space newId ∈ readableScopes after →
    ∃ oldId, mapping[oldId]? = some newId ∧ .Space oldId ∈ readableScopes before
  rows : ∀ oldId newId : String, mapping[oldId]? = some newId → .Space oldId ∈ readableScopes before →
    ∀ key : String, (after.spaceRecords newId)[key]? =
      ((before.spaceRecords oldId)[key]?).map fun row => { row with seq := 0, dirty := true }
  unhinted : ∀ newId key : String, ∀ row, (after.spaceSealed newId)[key]? = some row → row.publicIdentity = none

/-- A group on the way is hidden by a newer revision that cannot be read. -/
def Hides (error : RepositoryError) : Prop :=
  ∃ id, error = .Group ("group " ++ id ++ " has unsupported winning authority")

def TypedRecord.map {α β : Type} (f : α → β) : TypedRecord α → TypedRecord β
  | .Live value => .Live (f value)
  | .Tombstone id => .Tombstone id

/-- The same row read in another space. -/
theorem decodeHost_moved {record : Record} {a b : String} (chainA : isChainId a = true) (chainB : isChainId b = true) :
    decodeHost P record (.Space b) = (decodeHost P record (.Space a)).map
      (TypedRecord.map fun host => { host with scope := .Space b }) := by
  have shape (payload : HostPayload) : validateHostShape P { id := record.id, scope := .Space b, payload } =
      validateHostShape P { id := record.id, scope := .Space a, payload } := by
    simp only [validateHostShape, validateScope, chainA, chainB]
  unfold decodeHost
  cases refuse (record.kind != .Host) (RecordValidationError.WrongKind "host" record.kind.asStr) with
  | error e => rfl
  | ok _ =>
    cases refuse (!isHostId record.id) (RecordValidationError.Invalid "id" record.id "expected a host id") with
    | error e => rfl
    | ok _ =>
      simp only [Result.ok_bind]
      split
      · rfl
      · cases refuse (!(((record.payload.get "schema").bind Json.asU64).getD 0 == 2 ||
            ((record.payload.get "schema").bind Json.asU64).getD 0 == 3)) _ with
        | error e => rfl
        | ok _ =>
          simp only [Result.ok_bind]
          cases ofDecoder "host" (HostPayload.ofJson record.payload) with
          | error e => rfl
          | ok payload =>
            simp only [Result.ok_bind, shape]
            cases validateHostShape P { id := record.id, scope := .Space a, payload } with
            | error e => rfl
            | ok _ => rfl

theorem decodeGroup_moved {record : Record} {a b : String} (chainA : isChainId a = true)
    (chainB : isChainId b = true) :
    decodeGroup record (.Space b) = (decodeGroup record (.Space a)).map
      (TypedRecord.map fun group => { group with scope := .Space b }) := by
  have shape (payload : GroupPayload) : validateGroup { id := record.id, scope := .Space b, payload } =
      validateGroup { id := record.id, scope := .Space a, payload } := by
    simp only [validateGroup, validateScope, chainA, chainB]
  unfold decodeGroup
  cases refuse (record.kind != .Group) (RecordValidationError.WrongKind "group" record.kind.asStr) with
  | error e => rfl
  | ok _ =>
    cases refuse (!isHostId record.id) (RecordValidationError.Invalid "id" record.id "expected a group id") with
    | error e => rfl
    | ok _ =>
      simp only [Result.ok_bind]
      split
      · rfl
      · cases ofDecoder "group" (GroupPayload.ofJson record.payload) with
        | error e => rfl
        | ok payload =>
          simp only [Result.ok_bind, shape]
          cases validateGroup { id := record.id, scope := .Space a, payload } with
          | error e => rfl
          | ok _ => rfl

namespace SpacesMoved

variable (moved : SpacesMoved mapping before after) (header : HeaderValid before)

/-! ## Groups -/

include moved in
theorem not_shadowed (scope : HostScope) (row : Option LocalRecord) (kind : RecordKind) (id : String) :
    shadowed (scopeSealed after scope) row kind id = false := by
  rw [shadowed, List.any_eq_false]
  intro sealed member
  obtain ⟨key, held⟩ := BTreeMap.mem_values.mp member
  cases scope with
  | «Local» => simp [scopeSealed] at held
  | Space id => simp [opaqueShadows, moved.unhinted id key sealed held]

include moved in
/-- A readable scope and the scope that replaces it. -/
theorem scope_cases {scope : HostScope} (readable : scope ∈ readableScopes before) :
    (scope = .Local ∧ movedScope mapping scope = .Local) ∨ ∃ oldId newId, scope = .Space oldId ∧
      movedScope mapping scope = .Space newId ∧ mapping[oldId]? = some newId ∧
      .Space newId ∈ readableScopes after := by
  cases scope with
  | «Local» => exact .inl ⟨rfl, rfl⟩
  | Space oldId =>
    obtain ⟨newId, mapped, readable'⟩ := moved.readable oldId readable
    exact .inr ⟨oldId, newId, rfl, by simp [movedScope, mapped], mapped, readable'⟩

include header in
theorem old_chain {oldId : String} (readable : .Space oldId ∈ readableScopes before) : isChainId oldId = true := by
  obtain ⟨space, found, _⟩ := mem_readableScopes_space.mp readable
  exact header.spaces oldId space found

include moved header in
/-- A group that nothing hides is found where its scope is now. -/
theorem group_moved {scope : HostScope} (readable : scope ∈ readableScopes before) {id : String}
    (open_ : shadowed (scopeSealed before scope) ((before.groupRows scope)[recordKey .Group id]?) .Group id = false) :
    group after (movedScope mapping scope) id = (group before scope id).map (movedGroup mapping) := by
  obtain ⟨rfl, place⟩ | ⟨oldId, newId, rfl, place, mapped, readable'⟩ := moved.scope_cases readable
  · have same : group after .Local id = group before .Local id := by
      simp only [group, groupRecords, moved.local, scopeSealed]
    rw [place, same]
    cases found : group before .Local id with
    | error e => rfl
    | ok group =>
      obtain ⟨_, row, _, decodes⟩ := group_eq_ok found
      obtain ⟨_, _, _, here, _⟩ := decodeGroup_live decodes
      show Except.ok group = Except.ok (movedGroup mapping group)
      rw [movedGroup, here]
      simp only [movedScope, ← here]
  · have chainA := old_chain header readable
    have chainB := moved.chain oldId newId mapped
    have held := moved.rows oldId newId mapped readable (recordKey .Group id)
    rw [place]
    simp only [group, groupRecords_of_readable readable, groupRecords_of_readable readable', Result.ok_bind, open_,
      moved.not_shadowed, Result.refuse_false]
    simp only [SyncStateV3.groupRows, held]
    -- both sides read the same row, so they fail alike and decode alike
    cases (before.spaceRecords oldId)[recordKey .Group id]? with
    | none => rfl
    | some row =>
      have cache : validateCache (recordKey .Group id) { row with seq := 0, dirty := true } =
          validateCache (recordKey .Group id) row := rfl
      simp only [Option.map_some, cache]
      cases validateCache (recordKey .Group id) row with
      | error e => rfl
      | ok _ =>
        simp only [Result.ok_bind, @decodeGroup_moved row.record _ _ chainA chainB]
        cases decodes : decodeGroup row.record (.Space oldId) with
        | error e => rfl
        | ok decoded =>
          cases decoded with
          | Tombstone gone => rfl
          | Live group =>
            obtain ⟨_, _, _, here, _⟩ := decodeGroup_live decodes
            show Except.ok { group with scope := .Space newId } = Except.ok (movedGroup mapping group)
            rw [movedGroup, here, movedScope, mapped, Option.getD_some]

include moved header in
theorem ancestorLoop_moved {scope : HostScope} (readable : scope ∈ readableScopes before) (fuel : Nat)
    (path : List GroupRecord) (seen : List String) (id : Option String)
    (open_ : ∀ error, ancestorLoop before scope fuel path seen id = .error error → ¬ Hides error) :
    ancestorLoop after (movedScope mapping scope) fuel (path.map (movedGroup mapping)) seen id =
      (ancestorLoop before scope fuel path seen id).map (List.map (movedGroup mapping)) := by
  induction fuel generalizing path seen id with
  | zero =>
    cases id with
    | none =>
      show Except.ok _ = Except.ok _
      rw [List.map_reverse]
    | some id => rfl
  | succ fuel ih =>
    cases id with
    | none =>
      show Except.ok _ = Except.ok _
      rw [List.map_reverse]
    | some id =>
      simp only [ancestorLoop, List.length_map] at open_ ⊢
      split
      · rfl
      · rename_i walks
        rw [if_neg walks] at open_
        have visible : shadowed (scopeSealed before scope) ((before.groupRows scope)[recordKey .Group id]?) .Group id =
            false := by
          by_contra hidden
          rw [Bool.not_eq_false] at hidden
          refine open_ (.Group ("group " ++ id ++ " has unsupported winning authority")) ?_ ⟨id, rfl⟩
          simp only [group, groupRecords_of_readable readable, Result.ok_bind, hidden]
          rfl
        rw [moved.group_moved header readable visible]
        cases found : group before scope id with
        | error e => rfl
        | ok parent =>
          rw [found] at open_
          exact ih (parent :: path) (id :: seen) parent.payload.parentId open_

/-! ## Settings -/

theorem inheritFields_moved (path : List GroupRecord) (host : HostRecord) :
    inheritFields (path.map (movedGroup mapping)) (movedHost mapping host) = inheritFields path host := by
  have nearest {α : Type} (field : GroupDefaults → Option α) :
      nearestDefault (path.map (movedGroup mapping)) field = nearestDefault path field := by
    simp only [nearestDefault, List.findSome?_map]
    rfl
  have taken : inheritField (path.map (movedGroup mapping)) = inheritField path := by
    funext p field
    simp only [inheritField, nearest]
  rw [inheritFields, inheritFields, taken]
  rfl

include moved header in
theorem validateHost_moved {host : HostRecord} (readable : host.scope ∈ readableScopes before) (p : HostPayload) :
    validateHost P { movedHost mapping host with payload := p } = validateHost P { host with payload := p } := by
  obtain ⟨here, place⟩ | ⟨oldId, newId, here, place, mapped, readable'⟩ := moved.scope_cases readable
  · simp only [movedHost, place]
    rw [← here]
  · have chainA := old_chain header (here ▸ readable)
    have chainB := moved.chain oldId newId mapped
    have scopes (text reason : String) : validateScope text reason host.id (movedScope mapping host.scope) =
        validateScope text reason host.id host.scope := by
      rw [place, here]
      simp only [validateScope, chainA, chainB]
    simp only [movedHost, validateHost, validateHostShape, scopes]

include moved header in
/-- A host is resolved as before, or could not be resolved because a group was hidden. -/
theorem resolveEffective_moved {host : HostRecord} (readable : host.scope ∈ readableScopes before)
    (open_ : ∀ error, groupErrorOf P before host = some error → ¬ Hides error) :
    resolveEffective P after (movedHost mapping host) = resolveEffective P before host := by
  have walk : ∀ error, ancestorPath before host.scope host.payload.groupId = .error error → ¬ Hides error := by
    intro error failed
    apply open_
    rw [groupErrorOf, resolveEffective, failed]
    rfl
  have path := moved.ancestorLoop_moved header readable _ [] [] host.payload.groupId walk
  have walked : ancestorPath after (movedHost mapping host).scope (movedHost mapping host).payload.groupId =
      (ancestorPath before host.scope host.payload.groupId).map (List.map (movedGroup mapping)) := path
  rw [resolveEffective, resolveEffective, walked]
  cases ancestorPath before host.scope host.payload.groupId with
  | error e => rfl
  | ok groups =>
    show (validateHost P { movedHost mapping host with
          payload := (inheritFields (groups.map (movedGroup mapping)) (movedHost mapping host)).payload }).toRepo >>=
        (fun _ => Except.ok (inheritFields (groups.map (movedGroup mapping)) (movedHost mapping host))) =
      (validateHost P { host with payload := (inheritFields groups host).payload }).toRepo >>=
        fun _ => Except.ok (inheritFields groups host)
    rw [inheritFields_moved, moved.validateHost_moved header readable]

include moved header in
theorem effectiveOf_moved {host : HostRecord} (readable : host.scope ∈ readableScopes before)
    (open_ : ∀ error, groupErrorOf P before host = some error → ¬ Hides error) :
    effectiveOf P after (movedHost mapping host) = effectiveOf P before host ∧
      groupErrorOf P after (movedHost mapping host) = groupErrorOf P before host := by
  have same := moved.resolveEffective_moved header readable open_
  constructor
  · rw [effectiveOf, effectiveOf, same]
    rfl
  · rw [groupErrorOf, groupErrorOf, same]

/-! ## Hosts -/

include moved header in
theorem host_after {host : HostRecord} {row : LocalRecord} (holds : Holds P before host row) :
    ∃ row', Holds P after (movedHost mapping host) row' ∧ row'.record = row.record := by
  have held := holds.held
  have decodes := holds.decodes
  obtain ⟨here, place⟩ | ⟨oldId, newId, here, place, mapped, readable'⟩ := moved.scope_cases holds.scope
  · refine ⟨row, ⟨?_, ?_, ?_⟩, rfl⟩
    · rw [movedHost, place]
      exact List.mem_cons_self
    · rw [movedHost, place]
      rw [here] at held
      simpa [SyncStateV3.hostRecords, moved.local] using held
    · simp only [movedHost, place]
      rw [here] at decodes
      rw [decodes, ← here]
  · rw [here] at held decodes
    refine ⟨{ row with seq := 0, dirty := true }, ⟨?_, ?_, ?_⟩, rfl⟩
    · rw [movedHost, place]
      exact readable'
    · simp only [movedHost, place]
      change (after.spaceRecords newId)[recordKey .Host host.id]? = _
      rw [moved.rows oldId newId mapped (here ▸ holds.scope),
        show (before.spaceRecords oldId)[recordKey .Host host.id]? = some row from held]
      rfl
    · simp only [movedHost, place]
      rw [decodeHost_moved (old_chain header (here ▸ holds.scope)) (moved.chain oldId newId mapped), decodes]
      rfl

include moved header in
theorem host_before {host : HostRecord} {row : LocalRecord} (holds : Holds P after host row) :
    ∃ host₀ row₀, Holds P before host₀ row₀ ∧ movedHost mapping host₀ = host := by
  have held := holds.held
  have decodes := holds.decodes
  cases here : host.scope with
  | «Local» =>
    refine ⟨host, row, ⟨?_, ?_, holds.decodes⟩, ?_⟩
    · rw [here]
      exact List.mem_cons_self
    · rw [here] at held ⊢
      simpa [SyncStateV3.hostRecords, moved.local] using held
    · rw [movedHost, here]
      simp only [movedScope, ← here]
  | Space newId =>
    -- the row of the new space is the image of one of the old, which decodes to the same host
    rw [here] at held decodes
    obtain ⟨oldId, mapped, readable⟩ := moved.readableFrom newId (here ▸ holds.scope)
    have found : (after.spaceRecords newId)[recordKey .Host host.id]? = some row := held
    rw [moved.rows oldId newId mapped readable] at found
    obtain ⟨row₀, held₀, rfl⟩ := Option.map_eq_some_iff.mp found
    rw [decodeHost_moved (old_chain header readable) (moved.chain oldId newId mapped)] at decodes
    cases decodes₀ : decodeHost P row₀.record (.Space oldId) with
    | error e =>
      rw [show decodeHost P _ _ = _ from decodes₀] at decodes
      cases decodes
    | ok decoded =>
      rw [show decodeHost P _ _ = _ from decodes₀] at decodes
      cases decoded with
      | Tombstone id => cases decodes
      | Live host₀ =>
        obtain ⟨_, _, _, place, _⟩ := decodeHost_live decodes₀
        have same : host = { host₀ with scope := .Space newId } := by
          cases decodes
          rfl
        subst same
        refine ⟨host₀, row₀, ⟨?_, ?_, ?_⟩, ?_⟩
        · rw [place]
          exact readable
        · rw [place]
          exact held₀
        · rw [place]
          exact decodes₀
        · simp only [movedHost, place, movedScope, mapped, Option.getD_some]

include moved in
theorem host_injective {host other : HostRecord} {row row' : LocalRecord} (holds : Holds P before host row)
    (holds' : Holds P before other row') (same : movedHost mapping host = movedHost mapping other) : host = other := by
  obtain ⟨id, scope, payload⟩ := HostRecord.mk.inj same
  refine (holds.unique holds' ?_ id).1
  obtain ⟨here, place⟩ | ⟨oldId, newId, here, place, mapped, _⟩ := moved.scope_cases holds.scope
  · obtain ⟨here', _⟩ | ⟨_, _, _, place', _⟩ := moved.scope_cases holds'.scope
    · rw [here, here']
    · rw [place, place'] at scope
      cases scope
  · obtain ⟨_, place'⟩ | ⟨oldId', newId', here', place', mapped', _⟩ := moved.scope_cases holds'.scope
    · rw [place, place'] at scope
      cases scope
    · rw [place, place'] at scope
      cases scope
      rw [here, here', moved.injective oldId oldId' newId mapped mapped']

end SpacesMoved

/-! ## Routes -/

/-- Every host of one list is in the other, with the jumps it has there, as far as the ids of the route go. -/
theorem Expands.transfer {hosts hosts' : List HostView} {id : String} {route : List String}
    (alike : ∀ view ∈ hosts, view.host.id ∈ route → ∃ view' ∈ hosts', view'.host.id = view.host.id ∧
      view'.effectivePayload.jump = view.effectivePayload.jump) (expands : Expands hosts id route) :
    Expands hosts' id route := by
  induction expands with
  | direct member jumps =>
    obtain ⟨view', member', id, same⟩ := alike _ member List.mem_cons_self
    rw [← id]
    exact .direct member' (same.trans jumps)
  | @through view first rest route member jumps _ ih =>
    obtain ⟨view', member', id, same⟩ := alike _ member (by simp)
    rw [← id]
    refine .through member' (same.trans jumps) (ih fun other inside named => ?_)
    exact alike other inside (by simp [named])

theorem routeIds_eq_ok {hosts : List HostView} {id : String} {route : List String} :
    routeIds hosts id = .ok route ↔ Expands hosts id route ∧ (∀ hop ∈ route, NamesOne hosts hop) ∧ route.Nodup ∧
      route.length ≤ MAX_JUMPS + 1 := by
  have names {route : List String} (one : ∀ hop ∈ route, NamesOne hosts hop) :
      (route.map (position hosts)).map (idAt hosts) = route := by
    rw [List.map_map]
    conv_rhs => rw [← List.map_id route]
    exact List.map_congr_left fun hop member => (one hop member).idAt_position
  unfold routeIds
  constructor
  · intro found
    cases walked : routeIndices hosts id with
    | error e =>
      rw [walked] at found
      cases found
    | ok indices =>
      rw [walked] at found
      cases found
      obtain ⟨route, expands, one, distinct, short, rfl⟩ := routeIndices_eq_ok.mp walked
      rw [names one]
      exact ⟨expands, one, distinct, short⟩
  · rintro ⟨expands, one, distinct, short⟩
    rw [routeIndices_eq_ok.mpr ⟨route, expands, one, distinct, short, rfl⟩]
    show Except.ok _ = _
    rw [names one]

/-- A view whose groups are not hidden. -/
def HostView.Unhidden (view : HostView) : Prop := ∀ error, view.groupError = some error → ¬ Hides error

/-- The library shows the same hosts under the new space ids.  A host none of whose groups was hidden by
a newer revision has the same settings, or the same defect, and a route along such hosts is the same. -/
structure KeepsHosts (mapping : BTreeMap String) (hosts hosts' : List HostView) : Prop where
  same : (hosts'.map (·.host)).Perm ((hosts.map (·.host)).map (movedHost mapping))
  revisions : ∀ view ∈ hosts, ∃ view' ∈ hosts', view'.host = movedHost mapping view.host ∧
    view'.revision = view.revision ∧ view'.effectivePayload.hostKey = view.effectivePayload.hostKey
  settings : ∀ view ∈ hosts, view.Unhidden → ∀ view' ∈ hosts', view'.host = movedHost mapping view.host →
    view'.effectivePayload = view.effectivePayload ∧ view'.groupError = view.groupError
  routes : ∀ id route, (∀ view ∈ hosts, view.host.id ∈ route → view.Unhidden) →
    (routeIds hosts' id = .ok route ↔ routeIds hosts id = .ok route)

theorem SpacesMoved.keepsHosts (moved : SpacesMoved mapping before after) (header : HeaderValid before)
    {hosts hosts' : List HostView} (listed : listHosts P before = .ok hosts)
    (listed' : listHosts P after = .ok hosts') : KeepsHosts mapping hosts hosts' := by
  have perm := listed_perm_of_holds (movedHost mapping) listed listed'
    (fun host row holds => (moved.host_after header holds).imp fun _ => And.left)
    (fun host row holds => moved.host_before header holds)
    fun host row other row' holds holds' same => moved.host_injective holds holds' same
  have settings : ∀ view ∈ hosts, view.Unhidden → ∀ view' ∈ hosts', view'.host = movedHost mapping view.host →
      view'.effectivePayload = view.effectivePayload ∧ view'.groupError = view.groupError := by
    intro view member unhidden view' member' same
    obtain ⟨row, shown⟩ := shown_of_mem listed member
    obtain ⟨row', shown'⟩ := shown_of_mem listed' member'
    rw [shown'.effective, shown'.groupError, shown.effective, shown.groupError, same]
    refine moved.effectiveOf_moved header shown.holds.scope fun error failed => unhidden error ?_
    rw [shown.groupError, failed]
  have counterpart : ∀ view ∈ hosts, ∃ view' ∈ hosts', view'.host = movedHost mapping view.host := by
    intro view member
    have inside : movedHost mapping view.host ∈ hosts'.map (·.host) :=
      perm.mem_iff.mpr (List.mem_map_of_mem (List.mem_map_of_mem member))
    obtain ⟨view', member', same⟩ := List.mem_map.mp inside
    exact ⟨view', member', same⟩
  have origin : ∀ view' ∈ hosts', ∃ view ∈ hosts, view'.host = movedHost mapping view.host := by
    intro view' member'
    obtain ⟨host, inside, same⟩ := List.mem_map.mp (perm.mem_iff.mp (List.mem_map_of_mem member'))
    obtain ⟨view, member, rfl⟩ := List.mem_map.mp inside
    exact ⟨view, member, same.symm⟩
  -- the copy is one for one, so a name stands for one host on both sides or on neither
  have named (id : String) : NamesOne hosts' id ↔ NamesOne hosts id := by
    have ids := perm.map (·.id)
    rw [List.map_map, List.map_map, List.map_map] at ids
    unfold NamesOne
    rw [show hosts'.map (·.host.id) = hosts'.map ((·.id) ∘ (·.host)) from rfl, ids.count_eq]
    rfl
  refine ⟨perm, fun view member => ?_, settings, fun id route unhidden => ?_⟩
  · obtain ⟨row, shown⟩ := shown_of_mem listed member
    obtain ⟨row', holds', record⟩ := moved.host_after header shown.holds
    obtain ⟨view', member', same, shown'⟩ := exists_view listed' holds'
    refine ⟨view', member', same, ?_, ?_⟩
    · rw [shown'.revision, shown.revision, record]
    · rw [shown'.effective, shown.effective, effectiveOf_hostKey, effectiveOf_hostKey, same]
      rfl
  · rw [routeIds_eq_ok, routeIds_eq_ok]
    constructor
    · rintro ⟨expands, one, rest⟩
      refine ⟨expands.transfer fun view' member' inside => ?_, fun hop member => (named hop).mp (one hop member), rest⟩
      obtain ⟨view, member, same⟩ := origin view' member'
      have sameId : view'.host.id = view.host.id := by rw [same]; rfl
      have payload := (settings view member (unhidden view member (sameId ▸ inside)) view' member' same).1
      exact ⟨view, member, sameId.symm, by rw [payload]⟩
    · rintro ⟨expands, one, rest⟩
      refine ⟨expands.transfer fun view member inside => ?_, fun hop member => (named hop).mpr (one hop member), rest⟩
      obtain ⟨view', member', same⟩ := counterpart view member
      have payload := (settings view member (unhidden view member inside) view' member' same).1
      exact ⟨view', member', by rw [same]; rfl, by rw [payload]⟩

end Sshelter.Sync
