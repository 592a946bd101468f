import Sshelter.Verified.GroupRepair
import Sshelter.Verified.Inclusion
import Sshelter.Verified.Relocation
import Sshelter.Verified.Routes

/-! # The library after the inclusion

Every record of this device arrives in the space with its identity and payload, and every
other record stays as it is.  The settings of a host stay as well, unless its groups could not
be resolved where it was and are completed by groups from the other side of the move.
-/

namespace Sshelter.Sync

variable {P : Primitives} {state next : SyncStateV3} {destination : String} {now : Nat}

/-! ## Walks over any set of groups -/

/-- `ancestor_path` over groups that are looked up by id. -/
def walkGroups (lookup : String → Option GroupRecord) :
    Nat → List GroupRecord → List String → Option String → Option (List GroupRecord)
  | _, path, _, none => some path.reverse
  | 0, _, _, some _ => none
  | fuel + 1, path, seen, some id =>
    if path.length = maxAncestors ∨ id ∈ seen then none
    else
      match lookup id with
      | none => none
      | some found => walkGroups lookup fuel (found :: path) (id :: seen) found.payload.parentId

/-- The settings of a host whose groups are looked up by id. -/
def walkEffective (P : Primitives) (lookup : String → Option GroupRecord) (host : HostRecord) : HostPayload :=
  match walkGroups lookup (maxAncestors + 1) [] [] host.payload.groupId with
  | none => host.payload
  | some path =>
    if (validateHost P { host with payload := (inheritFields path host).payload }).isOk then
      (inheritFields path host).payload
    else host.payload

/-- The groups of one scope. -/
def groupsOf (state : SyncStateV3) (scope : HostScope) (id : String) : Option GroupRecord :=
  (group state scope id).toOption

theorem ancestorLoop_toOption {scope : HostScope} (fuel : Nat) (path : List GroupRecord) (seen : List String)
    (id : Option String) :
    (ancestorLoop state scope fuel path seen id).toOption = walkGroups (groupsOf state scope) fuel path seen id := by
  induction fuel generalizing path seen id with
  | zero => cases id <;> rfl
  | succ fuel ih =>
    cases id with
    | none => rfl
    | some id =>
      rw [ancestorLoop, walkGroups, groupsOf]
      split
      · rfl
      · cases group state scope id with
        | error error => rfl
        | ok found => exact ih _ _ _

theorem effectiveOf_eq_walk (host : HostRecord) :
    effectiveOf P state host = walkEffective P (groupsOf state host.scope) host := by
  unfold effectiveOf resolveEffective walkEffective
  rw [← ancestorLoop_toOption, ancestorPath]
  cases ancestorLoop state host.scope (maxAncestors + 1) [] [] host.payload.groupId with
  | error error => rfl
  | ok path =>
    simp only [Result.ok_bind, Except.toOption]
    cases validateHost P { host with payload := (inheritFields path host).payload } with
    | error error => rfl
    | ok _ => rfl

/-- Walks over groups with the same settings meet the same settings. -/
theorem walkGroups_settings {lookup lookup' : String → Option GroupRecord}
    (same : ∀ id, (lookup' id).map (·.payload) = (lookup id).map (·.payload)) {fuel : Nat}
    {path path' : List GroupRecord} {seen : List String} {id : Option String}
    (start : path'.map (·.payload) = path.map (·.payload)) :
    (walkGroups lookup' fuel path' seen id).map (List.map (·.payload)) =
      (walkGroups lookup fuel path seen id).map (List.map (·.payload)) := by
  induction fuel generalizing path path' seen id with
  | zero =>
    cases id with
    | none => simp [walkGroups, start]
    | some id => rfl
  | succ fuel ih =>
    cases id with
    | none => simp [walkGroups, start]
    | some id =>
      have length : path'.length = path.length := by simpa using congrArg List.length start
      have found := same id
      rw [walkGroups, walkGroups, length]
      split
      · rfl
      · cases here : lookup id with
        | none =>
          rw [here, Option.map_none, Option.map_eq_none_iff] at found
          simp [found]
        | some old =>
          rw [here, Option.map_some, Option.map_eq_some_iff] at found
          obtain ⟨new, there, payload⟩ := found
          rw [there]
          simp only [payload]
          exact ih (by simp [payload, start])

/-- More groups do not change a walk that ends. -/
theorem walkGroups_extend {lookup lookup' : String → Option GroupRecord}
    (more : ∀ id found, lookup id = some found → lookup' id = some found) {fuel : Nat}
    {path out : List GroupRecord} {seen : List String} {id : Option String}
    (walked : walkGroups lookup fuel path seen id = some out) :
    walkGroups lookup' fuel path seen id = some out := by
  induction fuel generalizing path seen id with
  | zero =>
    cases id with
    | none => exact walked
    | some id => cases walked
  | succ fuel ih =>
    cases id with
    | none => exact walked
    | some id =>
      rw [walkGroups] at walked ⊢
      split at walked
      · cases walked
      · rename_i within
        rw [if_neg within]
        split at walked
        · cases walked
        · rename_i found here
          rw [more id found here]
          exact ih walked

theorem walkEffective_settings {lookup lookup' : String → Option GroupRecord}
    (same : ∀ id, (lookup' id).map (·.payload) = (lookup id).map (·.payload)) (host : HostRecord) :
    walkEffective P lookup' host = walkEffective P lookup host := by
  have walks : (walkGroups lookup' (maxAncestors + 1) [] [] host.payload.groupId).map (List.map (·.payload)) =
      (walkGroups lookup (maxAncestors + 1) [] [] host.payload.groupId).map (List.map (·.payload)) :=
    walkGroups_settings same rfl
  unfold walkEffective
  cases old : walkGroups lookup (maxAncestors + 1) [] [] host.payload.groupId with
  | none =>
    rw [old, Option.map_none, Option.map_eq_none_iff] at walks
    rw [walks]
  | some path =>
    rw [old, Option.map_some, Option.map_eq_some_iff] at walks
    obtain ⟨path', new, payloads⟩ := walks
    rw [new]
    simp only [inheritFields_settings payloads rfl]

/-! ## The groups of both sides -/

/-- The groups of the space and of this device together. -/
def unitedGroups (state : SyncStateV3) (destination id : String) : Option GroupRecord :=
  (groupsOf state (.Space destination) id).or (groupsOf state .Local id)

theorem groupsOf_eq_some {scope : HostScope} {id : String} {found : GroupRecord} :
    groupsOf state scope id = some found ↔ group state scope id = .ok found := Result.mem_toOption

theorem group_of_path {scope : HostScope} {id : String}
    (walked : (ancestorPath state scope (some id)).isOk = true) : ∃ found, group state scope id = .ok found := by
  obtain ⟨path, walked⟩ := Result.isOk_iff.mp walked
  rw [ancestorPath, ancestorLoop, if_neg (by simp [maxAncestors])] at walked
  obtain ⟨found, read, _⟩ := Result.bind_eq_ok.mp walked
  exact ⟨found, read⟩

theorem not_live_of_group_tombstone {record : Record} {scope : HostScope} {id : String}
    (decodes : decodeGroup record scope = .ok (.Tombstone id)) : record.deleted = true := by
  rw [decodeGroup, Result.check_eq_ok, Result.check_eq_ok] at decodes
  obtain ⟨_, _, rest⟩ := decodes
  split at rest
  · assumption
  · obtain ⟨payload, _, rest⟩ := Result.bind_eq_ok.mp rest
    rw [Result.check_eq_ok] at rest
    cases rest.2

theorem readable_of_listed {hosts : List HostView} (listed : listHosts P state = .ok hosts) :
    Readable P state :=
  snapshot_isOk_iff.mp ((listHosts_isOk (P := P)).symm.trans (Result.isOk_iff.mpr ⟨_, listed⟩))

/-- A live group row of a readable library is a group. -/
theorem Readable.liveGroup {scope : HostScope} {id : String} {row : LocalRecord} (rows : Readable P state)
    (readable : scope ∈ readableScopes state)
    (held : (state.groupRows scope)[recordKey .Group id]? = some row) (kind : row.record.kind = .Group)
    (live : row.record.deleted = false) :
    ∃ found, decodeGroup row.record scope = .ok (.Live found) := by
  obtain ⟨decoded, decodes⟩ := Result.isOk_iff.mp ((rows.groups scope readable _ _ held).decodes kind)
  cases decoded with
  | Live found => exact ⟨found, decodes⟩
  | Tombstone id =>
    rw [not_live_of_group_tombstone decodes] at live
    cases live

/-- Nothing shadows a group of this device. -/
theorem Readable.localGroup {id : String} {row : LocalRecord} (rows : Readable P state)
    (held : state.local.groups[recordKey .Group id]? = some row) (kind : row.record.kind = .Group)
    (live : row.record.deleted = false) : ∃ found, group state .Local id = .ok found := by
  have here : HostScope.Local ∈ readableScopes state := List.mem_cons_self
  obtain ⟨found, decodes⟩ := rows.liveGroup here held kind live
  refine ⟨found, ?_⟩
  have cached := (rows.groups .Local here _ _ held).cached kind
  have free : shadowed (scopeSealed state .Local) (some row) .Group id = false := by
    rw [← Bool.not_eq_true]
    intro hidden
    obtain ⟨_, _, found, _⟩ := shadowed_iff.mp hidden
    simp [scopeSealed] at found
  rw [group, groupRecords, Result.ok_bind]
  simp only [held, free, Result.refuse_false, Result.ok_bind, validateCache_isOk.mpr cached,
    Validated.toRepo, decodes, Except.mapError]

/-- A group that is found has the settings of its row. -/
theorem group_payload {scope : HostScope} {id : String} {found : GroupRecord} {row : LocalRecord}
    (read : group state scope id = .ok found)
    (held : (state.groupRows scope)[recordKey .Group id]? = some row) :
    row.record.deleted = false ∧ GroupPayload.ofJson row.record.payload = some found.payload := by
  obtain ⟨_, other, held', decodes⟩ := group_eq_ok read
  rw [held] at held'
  cases held'
  obtain ⟨_, live, _, _, payload⟩ := decodeGroup_live decodes
  exact ⟨live, payload⟩

namespace IncludesExisting

theorem readable_before (includes : IncludesExisting P state destination next) : Readable P state := by
  obtain ⟨_, _, listed, _⟩ := validateTransition_cases includes.transition
  exact readable_of_listed listed

theorem readable_after (includes : IncludesExisting P state destination next) : Readable P next := by
  obtain ⟨_, _, _, listed, _⟩ := validateTransition_cases includes.transition
  exact readable_of_listed listed

theorem open_after (includes : IncludesExisting P state destination next) :
    .Space destination ∈ readableScopes next :=
  includes.included.readable ▸ readable_of_ensureScope includes.writable

/-- After the inclusion every live group of the space is found. -/
theorem group_found (includes : IncludesExisting P state destination next) {id : String} {row : LocalRecord}
    (held : (next.spaceRecords destination)[recordKey .Group id]? = some row)
    (kind : row.record.kind = .Group) (live : row.record.deleted = false) :
    ∃ found, group next (.Space destination) id = .ok found := by
  obtain ⟨moved, same, grouped⟩ := includes.grouped
  obtain ⟨found, decodes⟩ := includes.readable_after.liveGroup includes.open_after held kind live
  obtain ⟨groups, listed, checked⟩ := Result.bind_eq_ok.mp grouped
  have rows : moved.groupRows (.Space destination) = next.groupRows (.Space destination) := by
    simp only [SyncStateV3.groupRows, SyncStateV3.spaceRecords, same.spaces]
  have alive : LiveGroup moved (.Space destination) id found := by
    refine ⟨same.scopes.readable ▸ includes.open_after, row, ?_, decodes⟩
    rw [rows]
    exact held
  obtain ⟨named, placed, view, member, rfl⟩ := listGroups_complete listed alive
  have path := (validateSiblings_isOk.mp checked).1 view
    (List.mem_filter.mpr ⟨member, by simpa using placed⟩)
  rw [named] at path
  obtain ⟨found, read⟩ := group_of_path path
  refine ⟨found, ?_⟩
  rw [← read]
  apply same.scopes.group (same.scopes.readable ▸ includes.open_after)
  rw [rows]

/-- A group of this device is the only one of its id on both sides. -/
theorem united_local (includes : IncludesExisting P state destination next) {id : String} {found : GroupRecord}
    (read : group state .Local id = .ok found) : unitedGroups state destination id = some found := by
  obtain ⟨_, row, held, decodes⟩ := group_eq_ok read
  obtain ⟨named, _⟩ := checkCollection_cases includes.groups held
  have member : row ∈ localRows state := mem_localRows.mpr ⟨(decodeGroup_live decodes).2.1, .inl ⟨_, held⟩⟩
  obtain ⟨_, _, sameKey, arrived⟩ := includes.included.there _ ⟨row, member, named.symm⟩
  have vacant := arrived.vacant
  rw [sameKey] at vacant
  have gone : groupsOf state (.Space destination) id = none := by
    rw [Option.eq_none_iff_forall_ne_some]
    intro other there
    obtain ⟨_, row', held, decodes⟩ := group_eq_ok (groupsOf_eq_some.mp there)
    have deleted := vacant row' held
    rw [(decodeGroup_live decodes).2.1] at deleted
    cases deleted
  rw [unitedGroups, gone, groupsOf_eq_some.mpr read]
  rfl

/-- The space shows the groups of both sides. -/
theorem groups_after (includes : IncludesExisting P state destination next) (id : String) :
    (groupsOf next (.Space destination) id).map (·.payload) =
      (unitedGroups state destination id).map (·.payload) := by
  have open_ := readable_of_ensureScope includes.writable
  by_cases moved : ∃ row ∈ localRows state, rowKey row = recordKey .Group id
  · obtain ⟨row, member, named, _, new, arrived, succeeds⟩ := includes.included.there _ moved
    have before := includes.moved_group member named
    obtain ⟨live, _⟩ := mem_localRows.mp member
    obtain ⟨_, kind⟩ := checkCollection_cases includes.groups before
    rw [named] at arrived
    obtain ⟨old, oldRead⟩ := includes.readable_before.localGroup before kind live
    obtain ⟨found, read⟩ := includes.group_found arrived (succeeds.kind.trans kind) succeeds.live
    have oldPayload := (group_payload oldRead before).2
    have payload := (group_payload read arrived).2
    rw [succeeds.payload, oldPayload] at payload
    rw [includes.united_local oldRead, groupsOf_eq_some.mpr read]
    exact payload.symm
  · have same := includes.included.toSameScopes.group open_
      (includes.included.untouched (recordKey .Group id) fun row member same => moved ⟨row, member, same⟩)
    have absent : groupsOf state .Local id = none := by
      rw [Option.eq_none_iff_forall_ne_some]
      intro other here
      obtain ⟨_, row, held, decodes⟩ := group_eq_ok (groupsOf_eq_some.mp here)
      obtain ⟨named, _⟩ := checkCollection_cases includes.groups held
      exact moved ⟨row, mem_localRows.mpr ⟨(decodeGroup_live decodes).2.1, .inl ⟨_, held⟩⟩, named.symm⟩
    rw [unitedGroups, absent, Option.or_none, groupsOf, groupsOf, same]

end IncludesExisting

/-! ## The settings afterwards -/

/-- The settings of a host in the space, from the groups of both sides. -/
def unitedEffective (P : Primitives) (state : SyncStateV3) (destination : String) (host : HostRecord) :
    HostPayload :=
  walkEffective P (unitedGroups state destination) { host with scope := .Space destination }

theorem validateHost_scope {host : HostRecord} {spaceId : String} (valid : validateHost P host = .ok ())
    (chain : isChainId spaceId = true) : validateHost P { host with scope := .Space spaceId } = .ok () := by
  simp only [validateHost, validateHostShape, Result.check_eq_ok] at valid ⊢
  have scope : validateScope "space_id" "expected a valid chain id" host.id (.Space spaceId) = .ok () := by
    simp [validateScope, chain]
  tauto

namespace IncludesExisting

theorem chain_id (includes : IncludesExisting P state destination next) : isChainId destination = true := by
  obtain ⟨space, found, _⟩ := mem_readableScopes_space.mp includes.open_after
  exact includes.readable_after.header.spaces destination space found

/-- A host of the space is shown with the settings from both sides. -/
theorem effective_after (includes : IncludesExisting P state destination next) (host : HostRecord) :
    effectiveOf P next { host with scope := .Space destination } = unitedEffective P state destination host := by
  rw [effectiveOf_eq_walk, unitedEffective]
  exact walkEffective_settings includes.groups_after _

theorem effective_elsewhere (includes : IncludesExisting P state destination next) {host : HostRecord}
    {spaceId : String} (placed : host.scope = .Space spaceId) (other : spaceId ≠ destination)
    (readable : host.scope ∈ readableScopes state) : effectiveOf P next host = effectiveOf P state host := by
  apply effectiveOf_congr
  intro id
  apply includes.included.toSameScopes.group readable
  rw [placed]
  change (next.spaceRecords spaceId)[_]? = (state.spaceRecords spaceId)[_]?
  rw [includes.included.elsewhere spaceId other]

/-- Groups that resolve on their own side are completed by nothing. -/
theorem united_of_resolved (includes : IncludesExisting P state destination next) {host : HostRecord}
    (side : host.scope = .Local ∨ host.scope = .Space destination)
    (resolved : groupErrorOf P state host = none) :
    unitedEffective P state destination host = effectiveOf P state host := by
  obtain ⟨effective, resolved⟩ := resolves_of_groupError resolved
  obtain ⟨path, walked, rfl, valid⟩ := resolveEffective_eq_ok.mp resolved
  have more (id : String) (found : GroupRecord) (here : groupsOf state host.scope id = some found) :
      unitedGroups state destination id = some found := by
    obtain «local» | there := side
    · rw [«local»] at here
      exact includes.united_local (groupsOf_eq_some.mp here)
    · rw [there] at here
      rw [unitedGroups, here]
      rfl
  have walk : walkGroups (groupsOf state host.scope) (maxAncestors + 1) [] [] host.payload.groupId = some path := by
    rw [← ancestorLoop_toOption]
    exact Result.mem_toOption.mpr walked
  rw [effectiveOf_eq resolved, unitedEffective, walkEffective]
  simp only [walkGroups_extend more walk]
  have settings : (inheritFields path { host with scope := .Space destination }).payload =
      (inheritFields path host).payload := inheritFields_settings rfl rfl
  rw [settings, if_pos (by rw [validateHost_scope valid includes.chain_id]; rfl)]

end IncludesExisting

/-! ## The hosts afterwards -/

/-- The host where the inclusion puts it. -/
def includedHost (destination : String) (host : HostRecord) : HostRecord :=
  { host with scope := includedScope destination host.scope }

namespace IncludesExisting

/-- The row that a host of this device leaves for. -/
theorem moved_row (includes : IncludesExisting P state destination next) {host : HostRecord} {row : LocalRecord}
    (holds : Holds P state host row) (here : host.scope = .Local) :
    row ∈ localRows state ∧ rowKey row = recordKey .Host host.id ∧ ArrivedIn state next destination row := by
  have held := holds.held
  rw [here] at held
  obtain ⟨named, _⟩ := checkCollection_cases includes.hosts held
  have member : row ∈ localRows state := mem_localRows.mpr ⟨live_of_decodes holds.decodes, .inr ⟨_, held⟩⟩
  obtain ⟨other, inRows, sameKey, arrived⟩ := includes.included.there _ ⟨row, member, named.symm⟩
  have same : other = row := Option.some.inj ((includes.moved_host inRows sameKey).symm.trans held)
  subst same
  exact ⟨member, named.symm, arrived⟩

theorem host_after (includes : IncludesExisting P state destination next) {host : HostRecord} {row : LocalRecord}
    (holds : Holds P state host row) : ∃ row', Holds P next (includedHost destination host) row' := by
  obtain ⟨_, live, _, _, payload, _⟩ := decodeHost_live holds.decodes
  cases placed : host.scope with
  | «Local» =>
    obtain ⟨_, named, _, new, arrived, succeeds⟩ := includes.moved_row holds placed
    rw [named] at arrived
    obtain ⟨_, _, _, listed, _⟩ := validateTransition_cases includes.transition
    obtain ⟨host', id, there, holds'⟩ := holds_of_live listed includes.open_after arrived succeeds.live
    obtain ⟨_, _, _, _, payload', _⟩ := decodeHost_live holds'.decodes
    have same : includedHost destination host = host' := by
      cases host'
      simp only at id there payload'
      rw [succeeds.payload, payload] at payload'
      simp only [includedHost, placed, includedScope, id, there, Option.some.inj payload']
    rw [same]
    exact ⟨new, holds'⟩
  | Space spaceId =>
    have same : includedHost destination host = host := by
      simp only [includedHost, placed, includedScope]
      rw [← placed]
    rw [same]
    refine ⟨row, includes.included.readable ▸ holds.scope, ?_, holds.decodes⟩
    have held := holds.held
    rw [placed] at held ⊢
    by_cases here : spaceId = destination
    · subst here
      exact includes.kept held live
    · change (next.spaceRecords spaceId)[_]? = _
      rw [includes.included.elsewhere spaceId here]
      exact held

/-- No two hosts are put in the same place. -/
theorem included_injective (includes : IncludesExisting P state destination next) {host other : HostRecord}
    {row row' : LocalRecord} (holds : Holds P state host row) (holds' : Holds P state other row')
    (scope : includedScope destination host.scope = includedScope destination other.scope)
    (id : host.id = other.id) : host = other := by
  have apart {host other : HostRecord} {row row' : LocalRecord} (holds : Holds P state host row)
      (holds' : Holds P state other row') (here : host.scope = .Local) (there : other.scope = .Space destination)
      (id : host.id = other.id) : False := by
    obtain ⟨_, named, arrived⟩ := includes.moved_row holds here
    have held := holds'.held
    rw [there, ← id, ← named] at held
    have deleted := arrived.vacant row' held
    rw [live_of_decodes holds'.decodes] at deleted
    cases deleted
  cases at_ : host.scope with
  | «Local» =>
    cases at' : other.scope with
    | «Local» => exact (holds.unique holds' (at_.trans at'.symm) id).1
    | Space spaceId =>
      rw [at_, at'] at scope
      cases scope
      exact (apart holds holds' at_ at' id).elim
  | Space spaceId =>
    cases at' : other.scope with
    | «Local» =>
      rw [at_, at'] at scope
      cases scope
      exact (apart holds' holds at' at_ id.symm).elim
    | Space otherId =>
      rw [at_, at'] at scope
      exact (holds.unique holds' (at_.trans (scope.trans at'.symm)) id).1

/-- The same hosts are listed, at their new places. -/
theorem listed_perm (includes : IncludesExisting P state destination next) {old new : List HostView}
    (listed : listHosts P state = .ok old) (listed' : listHosts P next = .ok new) :
    (new.map (·.host)).Perm ((old.map (·.host)).map (includedHost destination)) := by
  refine listed_perm_of_holds (includedHost destination) listed listed' (fun host row holds => includes.host_after holds)
    (fun host row holds => ?_) fun host row other row' holds holds' same => ?_
  · obtain ⟨before, oldRow, oldHolds, id, payload, scope, _⟩ := includes.host_before holds
    refine ⟨before, oldRow, oldHolds, ?_⟩
    cases host
    simp only [includedHost] at id payload scope ⊢
    rw [id, payload, scope]
  · obtain ⟨id, scope, _⟩ := HostRecord.mk.inj same
    exact includes.included_injective holds holds' scope id

end IncludesExisting

/-! ## The inclusion keeps the library -/

/-- What the inclusion promises: the records of this device are moved, nothing else changes, and every
host connects as before. -/
structure KeepsLibrary (P : Primitives) (state : SyncStateV3) (destination : String) (next : SyncStateV3) :
    Prop where
  moved : ∀ row ∈ localRows state, ∃ new, (next.spaceRecords destination)[rowKey row]? = some new ∧
    Succeeds state destination row new
  noHosts : ∀ (key : String) row, next.local.hosts[key]? = some row → row.record.deleted = true
  noGroups : ∀ (key : String) row, next.local.groups[key]? = some row → row.record.deleted = true
  untouched : ∀ key, (∀ row ∈ localRows state, rowKey row ≠ key) →
    (next.spaceRecords destination)[key]? = (state.spaceRecords destination)[key]?
  elsewhere : ∀ spaceId ≠ destination, next.spaceRecords spaceId = state.spaceRecords spaceId
  settings : ∀ host row, Holds P state host row →
    (∃ row', Holds P next (includedHost destination host) row') ∧
      effectiveOf P next (includedHost destination host) = effectiveOf P state host
  routes : ∀ old new, listHosts P state = .ok old → listHosts P next = .ok new → ∀ id route,
    routeIds new id = .ok route ↔ routeIds old id = .ok route

/-- A host of either side whose groups do not resolve where it is, and to which the groups of both sides
together would give settings that are not its own. -/
structure AdoptsSettings (P : Primitives) (state : SyncStateV3) (destination : String) (host : HostRecord)
    (row : LocalRecord) : Prop where
  holds : Holds P state host row
  side : host.scope = .Local ∨ host.scope = .Space destination
  unresolved : groupErrorOf P state host ≠ none
  differs : unitedEffective P state destination host ≠ host.payload

theorem effectiveOf_unresolved {host : HostRecord} (unresolved : groupErrorOf P state host ≠ none) :
    effectiveOf P state host = host.payload := by
  unfold groupErrorOf at unresolved
  unfold effectiveOf
  split at unresolved
  · exact absurd rfl unresolved
  · simp [*]

theorem alike_of_included {old new : List HostView} (listed : listHosts P state = .ok old)
    (listed' : listHosts P next = .ok new)
    (hosts : (new.map (·.host)).Perm ((old.map (·.host)).map (includedHost destination)))
    (settings : ∀ host row, Holds P state host row →
      effectiveOf P next (includedHost destination host) = effectiveOf P state host) :
    (new.map fun view => (view.host.id, view.effectivePayload.jump)).Perm
      (old.map fun view => (view.host.id, view.effectivePayload.jump)) := by
  have new_eq : (new.map fun view => (view.host.id, view.effectivePayload.jump)) =
      (new.map (·.host)).map fun host => (host.id, (effectiveOf P next host).jump) := by
    rw [List.map_map]
    apply List.map_congr_left
    intro view member
    obtain ⟨row, shown⟩ := shown_of_mem listed' member
    simp only [Function.comp_apply, shown.effective]
  have old_eq : (old.map fun view => (view.host.id, view.effectivePayload.jump)) =
      ((old.map (·.host)).map (includedHost destination)).map
        fun host => (host.id, (effectiveOf P next host).jump) := by
    rw [List.map_map, List.map_map]
    apply List.map_congr_left
    intro view member
    obtain ⟨row, shown⟩ := shown_of_mem listed member
    rw [Function.comp_apply, Function.comp_apply, settings _ _ shown.holds, shown.effective]
    rfl
  rw [new_eq, old_eq]
  exact hosts.map _

/-- Without new names a route is kept as it is. -/
theorem routeIds_of_perm {old new : List HostView}
    (alike : (new.map fun view => (view.host.id, view.effectivePayload.jump)).Perm
      (old.map fun view => (view.host.id, view.effectivePayload.jump))) {id : String} {route : List String}
    (resolved : routeIds old id = .ok route) : routeIds new id = .ok route := by
  have renamed : Renamed (fun id => id) old new := by
    refine ⟨fun _ _ _ _ same => same, ?_⟩
    simpa using alike
  simpa using renamed.routeIds_ok resolved

namespace IncludesExisting

theorem settings_kept (includes : IncludesExisting P state destination next)
    (none_ : ∀ host row, ¬ AdoptsSettings P state destination host row) {host : HostRecord} {row : LocalRecord}
    (holds : Holds P state host row) :
    effectiveOf P next (includedHost destination host) = effectiveOf P state host := by
  have united (side : host.scope = .Local ∨ host.scope = .Space destination) :
      unitedEffective P state destination host = effectiveOf P state host := by
    by_cases resolved : groupErrorOf P state host = none
    · exact includes.united_of_resolved side resolved
    · rw [effectiveOf_unresolved resolved]
      by_contra differs
      exact none_ host row ⟨holds, side, resolved, differs⟩
  cases placed : host.scope with
  | «Local» =>
    rw [← united (.inl placed), ← includes.effective_after]
    simp only [includedHost, placed, includedScope]
  | Space spaceId =>
    by_cases here : spaceId = destination
    · subst here
      rw [← united (.inr placed), ← includes.effective_after]
      simp only [includedHost, placed, includedScope]
    · have same : includedHost destination host = host := by
        simp only [includedHost, placed, includedScope]
        rw [← placed]
      rw [same]
      exact includes.effective_elsewhere placed here holds.scope

theorem keepsLibrary (includes : IncludesExisting P state destination next)
    (none_ : ∀ host row, ¬ AdoptsSettings P state destination host row) :
    KeepsLibrary P state destination next where
  moved := by
    intro row member
    -- the row that arrived under this key is the live one that stood there before
    obtain ⟨other, inRows, sameKey, arrived⟩ := includes.included.there _ ⟨row, member, rfl⟩
    have same : other = row := by
      obtain ⟨_, ⟨key, held⟩ | ⟨key, held⟩⟩ := mem_localRows.mp member
      · obtain ⟨rfl, kind⟩ := checkCollection_cases includes.groups held
        have key : rowKey row = recordKey _ row.record.id := congrArg (recordKey · row.record.id) kind
        rw [key] at held sameKey
        exact Option.some.inj ((includes.moved_group inRows sameKey).symm.trans held)
      · obtain ⟨rfl, kind⟩ := checkCollection_cases includes.hosts held
        have key : rowKey row = recordKey _ row.record.id := congrArg (recordKey · row.record.id) kind
        rw [key] at held sameKey
        exact Option.some.inj ((includes.moved_host inRows sameKey).symm.trans held)
    subst same
    exact arrived.arrived
  noHosts := by
    intro key row held
    obtain gone | ⟨before, free⟩ := includes.included.here key row held
    · exact gone
    · obtain ⟨named, kind⟩ := checkCollection_cases includes.hosts before
      by_contra live
      have member : row ∈ localRows state := mem_localRows.mpr ⟨by simpa using live, .inr ⟨_, before⟩⟩
      exact free row member kind named.symm
  noGroups := by
    intro key row held
    obtain gone | ⟨before, free⟩ := includes.included.groupsHere key row held
    · exact gone
    · obtain ⟨named, kind⟩ := checkCollection_cases includes.groups before
      by_contra live
      have member : row ∈ localRows state := mem_localRows.mpr ⟨by simpa using live, .inl ⟨_, before⟩⟩
      exact free row member kind named.symm
  untouched := includes.included.untouched
  elsewhere := includes.included.elsewhere
  settings := fun host row holds => ⟨includes.host_after holds, includes.settings_kept none_ holds⟩
  routes := by
    intro old new listed listed' id route
    have alike := alike_of_included listed listed' (includes.listed_perm listed listed')
      fun host row holds => includes.settings_kept none_ holds
    exact ⟨routeIds_of_perm alike.symm, routeIds_of_perm alike⟩

/-- A host that adopts settings is shown with others than before. -/
theorem adopts_none (includes : IncludesExisting P state destination next)
    (keeps : KeepsLibrary P state destination next) (host : HostRecord) (row : LocalRecord) :
    ¬ AdoptsSettings P state destination host row := by
  intro adopts
  have placed : includedHost destination host = { host with scope := .Space destination } := by
    obtain here | there := adopts.side
    · simp only [includedHost, here, includedScope]
    · simp only [includedHost, there, includedScope]
  apply adopts.differs
  rw [← includes.effective_after, ← placed, (keeps.settings host row adopts.holds).2,
    effectiveOf_unresolved adopts.unresolved]

end IncludesExisting

/-! ### Nothing to include -/

section Empty
variable (empty : localRows state = [])
include empty

theorem deleted_of_empty {key : String} {row : LocalRecord}
    (held : state.local.groups[key]? = some row ∨ state.local.hosts[key]? = some row) :
    row.record.deleted = true := by
  by_contra live
  have member : row ∈ localRows state :=
    mem_localRows.mpr ⟨by simpa using live, held.imp (fun held => ⟨_, held⟩) fun held => ⟨_, held⟩⟩
  rw [empty] at member
  cases member

theorem placed_of_empty {host : HostRecord} {row : LocalRecord} (holds : Holds P state host row) :
    ∃ spaceId, host.scope = .Space spaceId := by
  cases placed : host.scope with
  | Space spaceId => exact ⟨spaceId, rfl⟩
  | «Local» =>
    have held := holds.held
    rw [placed] at held
    have gone := deleted_of_empty empty (.inr held)
    rw [live_of_decodes holds.decodes] at gone
    cases gone

theorem keepsLibrary_of_empty : KeepsLibrary P state destination state where
  moved := by simp [empty]
  noHosts := fun _ _ held => deleted_of_empty empty (.inr held)
  noGroups := fun _ _ held => deleted_of_empty empty (.inl held)
  untouched := fun _ _ => rfl
  elsewhere := fun _ _ => rfl
  settings := by
    intro host row holds
    obtain ⟨spaceId, placed⟩ := placed_of_empty empty holds
    have same : includedHost destination host = host := by
      simp only [includedHost, placed, includedScope]
      rw [← placed]
    rw [same]
    exact ⟨⟨row, holds⟩, rfl⟩
  routes := by
    intro old new listed listed' id route
    rw [listed] at listed'
    cases listed'
    rfl

theorem adopts_none_of_empty (host : HostRecord) (row : LocalRecord) :
    ¬ AdoptsSettings P state destination host row := by
  intro adopts
  obtain ⟨spaceId, placed⟩ := placed_of_empty empty adopts.holds
  have here : host.scope = .Space destination := by
    obtain «local» | there := adopts.side
    · rw [placed] at «local»
      cases «local»
    · exact there
  have alone : unitedGroups state destination = groupsOf state (.Space destination) := by
    funext id
    have absent : groupsOf state .Local id = none := by
      rw [Option.eq_none_iff_forall_ne_some]
      intro other found
      obtain ⟨_, row, held, decodes⟩ := group_eq_ok (groupsOf_eq_some.mp found)
      have gone := deleted_of_empty empty (.inl held)
      rw [(decodeGroup_live decodes).2.1] at gone
      cases gone
    rw [unitedGroups, absent, Option.or_none]
  have own : { host with scope := .Space destination } = host := by rw [← here]
  apply adopts.differs
  rw [unitedEffective, alone, own, ← here, ← effectiveOf_eq_walk, effectiveOf_unresolved adopts.unresolved]

end Empty

/-- The inclusion keeps the library exactly when no host adopts settings from the other side.  When it is
refused, the save that asked for it goes on with the records as they were. -/
theorem includeExisting_keeps_library_iff (P : Primitives) (pendingValid : PendingAccountOperation → Bool)
    (state : SyncStateV3) (destination : String) (confirmed : Bool) (now : Nat) (keys : Option ChainKeys) :
    (∀ next, includeExisting P pendingValid state destination confirmed now keys = .ok next →
      (KeepsLibrary P state destination next ↔ ∀ host row, ¬ AdoptsSettings P state destination host row)) ∧
    (includeNewRecords P pendingValid state keys = state ∨ ∃ space,
      includeExisting P pendingValid state space false 0 keys = .ok (includeNewRecords P pendingValid state keys)) := by
  constructor
  · intro next ran
    obtain ⟨empty, rfl⟩ | includes := includeExisting_cases ran
    · exact ⟨fun _ => adopts_none_of_empty empty, fun _ => keepsLibrary_of_empty empty⟩
    · exact ⟨includes.adopts_none, includes.keepsLibrary⟩
  · unfold includeNewRecords
    split
    · exact .inl rfl
    · split
      · exact .inl rfl
      · split
        · exact .inl rfl
        · rename_i space found
          split
          · rename_i next ran
            exact .inr ⟨space, ran⟩
          · exact .inl rfl

namespace Sample

/-- A pinned host of the space names a group that only this device has. -/
def strandedLibrary : SyncStateV3 :=
  { library { space with records := (∅ : BTreeMap LocalRecord).insert (recordKey .Host hostId) memberHost } with
    version := GROUP_STATE_VERSION
    «local» :=
      { LocalState.default with
        groups := (∅ : BTreeMap LocalRecord).insert (recordKey .Group groupId)
          { groupRow with record := { groupRow.record with payload := (groupPayload 2222).toJson } } } }

def strandedHost : HostRecord :=
  { id := hostId, scope := .Space chainId
    payload := (HostPayload.ofJson memberHost.record.payload).getD hostPayload }

def strandedInclusion : Repo SyncStateV3 :=
  includeExisting memberTable (fun _ => true) strandedLibrary chainId true 100 none

theorem strandedInclusion_succeeds : strandedInclusion.isOk = true := by
  decide +kernel

/-- The same library, with a group on this device that has the port of the host. -/
def samePortLibrary : SyncStateV3 :=
  { strandedLibrary with
    «local» :=
      { LocalState.default with
        groups := (∅ : BTreeMap LocalRecord).insert (recordKey .Group groupId) groupRow } }

def samePortInclusion : Repo SyncStateV3 :=
  includeExisting memberTable (fun _ => true) samePortLibrary chainId true 100 none

/-- The group arrives with the settings that the host has of its own. -/
theorem samePort_adopts_none (host : HostRecord) (row : LocalRecord) :
    ¬ AdoptsSettings memberTable samePortLibrary chainId host row := by
  intro adopts
  have readable : (listHosts memberTable samePortLibrary).isOk = true := by decide +kernel
  have own : ∀ hosts ∈ (listHosts memberTable samePortLibrary).toOption, ∀ view ∈ hosts,
      unitedEffective memberTable samePortLibrary chainId view.host = view.host.payload := by decide +kernel
  obtain ⟨hosts, listed⟩ := Result.isOk_iff.mp readable
  obtain ⟨view, member, rfl, _⟩ := exists_view listed adopts.holds
  exact adopts.differs (own hosts (Result.mem_toOption.mpr listed) view member)

end Sample

theorem same_port_inclusion_keeps_library :
    ∃ next, Sample.samePortInclusion = .ok next ∧
      (∀ host row, ¬ AdoptsSettings Sample.memberTable Sample.samePortLibrary Sample.chainId host row) ∧
      KeepsLibrary Sample.memberTable Sample.samePortLibrary Sample.chainId next := by
  have succeeds : Sample.samePortInclusion.isOk = true := by decide +kernel
  obtain ⟨next, ran⟩ := Result.isOk_iff.mp succeeds
  exact ⟨next, ran, Sample.samePort_adopts_none,
    ((includeExisting_keeps_library_iff _ _ _ _ _ _ _).1 next ran).mpr Sample.samePort_adopts_none⟩

/-- The group arrives beside the host, which from then on connects to the port of the group under the
pin of the old one. -/
theorem stranded_host_changes_port :
    ∃ next, Sample.strandedInclusion = .ok next ∧
      ¬ KeepsLibrary Sample.memberTable Sample.strandedLibrary Sample.chainId next := by
  obtain ⟨next, ran⟩ := Result.isOk_iff.mp Sample.strandedInclusion_succeeds
  refine ⟨next, ran, fun keeps => ?_⟩
  obtain ⟨empty, _⟩ | includes := includeExisting_cases ran
  · exact absurd empty (by decide +kernel)
  · refine includes.adopts_none keeps Sample.strandedHost Sample.memberHost ⟨⟨?_, ?_, ?_⟩, .inr rfl, ?_, ?_⟩
    all_goals decide +kernel

end Sshelter.Sync
