import Sshelter.Verified.LeaveSource

/-! # Settings under new ids

A host inherits along the path of its groups.  When every group on the path is copied under
its new id, with its references renamed, the copy of the host inherits the same settings with
the references renamed.
-/

namespace Sshelter.Sync.RecordLeave

variable {P : Primitives} {state : SyncStateV3} {spaces : BTreeMap SpaceStateV3} {draws : List String}
  {library : RepositorySnapshot}

/-! ## Paths -/

section Paths
variable {source target : SyncStateV3} {scope scope' : HostScope} {rename : String → String}
  {alike : GroupRecord → GroupRecord → Prop}

/-- The groups of a scope are found in another one under new ids. -/
structure GroupsMove (source : SyncStateV3) (scope : HostScope) (target : SyncStateV3) (scope' : HostScope)
    (rename : String → String) (alike : GroupRecord → GroupRecord → Prop) : Prop where
  found : ∀ id found, group source scope id = .ok found → ∃ found', group target scope' (rename id) = .ok found' ∧
    alike found found' ∧ found'.payload.parentId = found.payload.parentId.map rename
  injective : ∀ a b foundA foundB, group source scope a = .ok foundA → group source scope b = .ok foundB →
    rename a = rename b → a = b

theorem ancestorLoop_moved (move : GroupsMove source scope target scope' rename alike) {fuel : Nat}
    {path path' out : List GroupRecord} {seen : List String} {id : Option String}
    (paths : List.Forall₂ alike path path') (known : ∀ a ∈ seen, ∃ found, group source scope a = .ok found)
    (walked : ancestorLoop source scope fuel path seen id = .ok out) :
    ∃ out', ancestorLoop target scope' fuel path' (seen.map rename) (id.map rename) = .ok out' ∧
      List.Forall₂ alike out out' := by
  have ended {path path' : List GroupRecord} (paths : List.Forall₂ alike path path') :
      List.Forall₂ alike path.reverse path'.reverse := List.forall₂_reverse_iff.mpr paths
  -- both walks take a step together; the target sees a repetition only where the source did
  induction fuel generalizing path path' seen id with
  | zero =>
    cases id with
    | none =>
      cases walked
      exact ⟨_, rfl, ended paths⟩
    | some id => cases walked
  | succ fuel ih =>
    cases id with
    | none =>
      cases walked
      exact ⟨_, rfl, ended paths⟩
    | some id =>
      rw [ancestorLoop] at walked
      split at walked
      · cases walked
      · rename_i short
        rw [not_or] at short
        obtain ⟨found, read, walked⟩ := Result.bind_eq_ok.mp walked
        obtain ⟨found', read', same, parent⟩ := move.found id found read
        have fresh : rename id ∉ seen.map rename := by
          intro member
          obtain ⟨other, inSeen, equal⟩ := List.mem_map.mp member
          obtain ⟨otherFound, otherRead⟩ := known other inSeen
          exact short.2 (move.injective other id _ _ otherRead read equal ▸ inSeen)
        obtain ⟨out', ran, outs⟩ := ih (.cons same paths)
          (by
            intro a member
            obtain rfl | before := List.mem_cons.mp member
            · exact ⟨found, read⟩
            · exact known a before) walked
        refine ⟨out', ?_, outs⟩
        rw [Option.map_some, ancestorLoop, if_neg]
        · rw [read', Result.ok_bind, parent]
          exact ran
        · rw [not_or, ← paths.length_eq]
          exact ⟨short.1, fresh⟩

theorem ancestorPath_moved (move : GroupsMove source scope target scope' rename alike) {id : Option String}
    {path : List GroupRecord} (walked : ancestorPath source scope id = .ok path) :
    ∃ path', ancestorPath target scope' (id.map rename) = .ok path' ∧ List.Forall₂ alike path path' :=
  ancestorLoop_moved move .nil (by simp) walked

/-- Groups that are found unchanged give the same path. -/
theorem ancestorPath_kept (kept : ∀ id found, group source scope id = .ok found → group target scope' id = .ok found)
    {id : Option String} {path : List GroupRecord} (walked : ancestorPath source scope id = .ok path) :
    ancestorPath target scope' id = .ok path := by
  have move : GroupsMove source scope target scope' (fun id => id) (fun found found' => found' = found) :=
    { found := fun id found read => ⟨found, kept id found read, rfl, by simp⟩
      injective := fun _ _ _ _ _ _ same => same }
  obtain ⟨path', walked', same⟩ := ancestorPath_moved move walked
  have paths : path' = path := by
    clear walked walked'
    induction same with
    | nil => rfl
    | cons head _ ih => rw [head, ih]
  rwa [Option.map_id', paths] at walked'

end Paths

/-! ## Inherited fields -/

section Inherited
variable {rename : String → String}

/-- The groups give the same defaults, the jumps renamed. -/
def SameDefaults (rename : String → String) (found found' : GroupRecord) : Prop :=
  found'.payload.defaults =
    { found.payload.defaults with jump := found.payload.defaults.jump.map (List.map rename) }

theorem nearestDefault_moved {α : Type} {path path' : List GroupRecord} {field : GroupDefaults → Option α}
    {change : α → α} (paths : List.Forall₂ (SameDefaults rename) path path')
    (each : ∀ d : GroupDefaults, field { d with jump := d.jump.map (List.map rename) } = (field d).map change) :
    (nearestDefault path' field).map Prod.snd = ((nearestDefault path field).map Prod.snd).map change := by
  unfold nearestDefault
  induction paths with
  | nil => rfl
  | @cons found found' rest rest' same _ ih =>
    have own : field found'.payload.defaults = (field found.payload.defaults).map change := by rw [same, each]
    cases set : field found.payload.defaults with
    | none =>
      simp only [List.findSome?_cons, own, set, Option.map_none]
      exact ih
    | some value => simp [own, set]

/-- The setting taken from the nearest default is renamed when the default is. -/
theorem taken_moved {α : Type} {near near' : Option (String × α)} {change : α → α}
    (equal : near'.map Prod.snd = (near.map Prod.snd).map change) (aliasName : String) {set set' : α → HostPayload}
    {default default' : α} (given : ∀ value, set' (change value) = movedHost rename aliasName (set value))
    (otherwise : set' default' = movedHost rename aliasName (set default)) :
    (match near' with
      | some (id, value) => (set' value, id)
      | none => (set' default', "default")).1 =
    movedHost rename aliasName (match near with
      | some (id, value) => (set value, id)
      | none => (set default, "default")).1 := by
  cases near with
  | none =>
    cases near' with
    | none => exact otherwise
    | some _ => cases equal
  | some entry =>
    cases near' with
    | none => cases equal
    | some entry' =>
      have value : entry'.2 = change entry.2 := Option.some.inj equal
      show set' entry'.2 = movedHost rename aliasName (set entry.2)
      rw [value, given]

theorem inheritField_moved {path path' : List GroupRecord} (paths : List.Forall₂ (SameDefaults rename) path path')
    (aliasName : String) (p : HostPayload) (field : InheritedField) :
    (inheritField path' (movedHost rename aliasName p) field).1 =
      movedHost rename aliasName (inheritField path p field).1 := by
  have plain {α : Type} (field : GroupDefaults → Option α)
      (each : ∀ d : GroupDefaults, field { d with jump := d.jump.map (List.map rename) } = field d) :
      (nearestDefault path' field).map Prod.snd = ((nearestDefault path field).map Prod.snd).map fun value => value :=
    nearestDefault_moved paths (fun d => by simp [each])
  cases field with
  | Port => exact taken_moved (plain (·.port) fun _ => rfl) aliasName (fun _ => rfl) rfl
  | User => exact taken_moved (plain (·.user) fun _ => rfl) aliasName (fun _ => rfl) rfl
  | Jump => exact taken_moved (nearestDefault_moved paths fun _ => rfl) aliasName (fun _ => rfl) rfl
  | KeepaliveSecs => exact taken_moved (plain (·.keepaliveSecs) fun _ => rfl) aliasName (fun _ => rfl) rfl
  | KeepaliveMaxMissed => exact taken_moved (plain (·.keepaliveMaxMissed) fun _ => rfl) aliasName (fun _ => rfl) rfl
  | ConnectTimeoutSecs => exact taken_moved (plain (·.connectTimeoutSecs) fun _ => rfl) aliasName (fun _ => rfl) rfl
  | Authentication => exact taken_moved (plain (·.authentication) fun _ => rfl) aliasName (fun _ => rfl) rfl

theorem inheritFields_moved {path path' : List GroupRecord} (paths : List.Forall₂ (SameDefaults rename) path path')
    {host host' : HostRecord} {aliasName : String} (payload : host'.payload = movedHost rename aliasName host.payload) :
    (inheritFields path' host').payload = movedHost rename aliasName (inheritFields path host).payload := by
  rw [inheritFields_payload, inheritFields_payload, payload]
  show host.payload.inherit.foldl _ _ = _
  generalize host.payload.inherit = fields
  generalize host.payload = p
  induction fields generalizing p with
  | nil => rfl
  | cons field rest ih =>
    rw [List.foldl_cons, List.foldl_cons, inheritField_moved paths, ih]

theorem inheritFields_identity (path : List GroupRecord) (host : HostRecord) :
    (inheritFields path host).payload.aliasName = host.payload.aliasName ∧
      (inheritFields path host).payload.groupId = host.payload.groupId := by
  refine inheritFields_induction path
    (fun p => p.aliasName = host.payload.aliasName ∧ p.groupId = host.payload.groupId) ⟨rfl, rfl⟩ ?_
  intro p kept field _
  have same : (inheritField path p field).1.aliasName = p.aliasName ∧
      (inheritField path p field).1.groupId = p.groupId := by
    cases field <;> simp only [inheritField] <;> split <;> exact ⟨rfl, rfl⟩
  exact ⟨same.1.trans kept.1, same.2.trans kept.2⟩

end Inherited

/-! ## The groups of the plan -/

variable {now : Nat} {locals : List HostRecord} {used : List (Option String × String)} {assigned : Assigning}
  {final : Planning} {hosts : List (Assigned × HostPayload)} {groups : List (Assigned × GroupPayload)}

theorem assigned_drawn {row : Assigned} (member : row ∈ assignedRows spaces draws) : row.id ∈ draws :=
  assigned_ids.subset (List.mem_map_of_mem member)

/-- A group of this device depends on its row alone. -/
theorem group_local_congr {first second : SyncStateV3} {id : String}
    (same : second.local.groups[recordKey .Group id]? = first.local.groups[recordKey .Group id]?) :
    group second .Local id = group first .Local id := by
  simp only [group, groupRecords, Result.ok_bind, scopeSealed, same]

/-- Hosts that resolve, with what they inherit. -/
theorem effectiveHosts_eq {hosts : List HostRecord}
    (resolve : ∀ host ∈ hosts, ∃ effective, resolveEffective P state host = .ok effective) :
    effectiveHosts P state hosts =
      .ok (hosts.map fun host => { host with payload := effectiveOf P state host }) := by
  unfold effectiveHosts
  induction hosts with
  | nil => rfl
  | cons host rest ih =>
    obtain ⟨effective, resolves⟩ := resolve host List.mem_cons_self
    rw [List.mapM_cons, resolves, Result.ok_bind, ih fun other member => resolve other (List.mem_cons_of_mem _ member),
      List.map_cons, effectiveOf_eq resolves]
    rfl

namespace Prepared

variable (prepared : Prepared P state spaces draws now library locals used assigned final hosts groups)
include prepared

theorem rename_hex {id : String} (hex : isHostId id = true) : isHostId (remapped assigned.remap id) = true := by
  cases found : assigned.remap[id]? with
  | none => rwa [remapped, found, Option.getD_none]
  | some new =>
    obtain ⟨row, member, _, rfl⟩ := (prepared.renames id new).mp found
    rw [remapped, found, Option.getD_some]
    exact prepared.leaving.fresh.hex _ (assigned_drawn member)

theorem rename_injective {a b : String} (plainA : a ∉ draws) (plainB : b ∉ draws)
    (same : remapped assigned.remap a = remapped assigned.remap b) : a = b :=
  prepared.renames.injective prepared.leaving.fresh.distinct plainA plainB same

/-- An id of this device is kept. -/
theorem rename_local {id : String} (here : id ∈ localIds state) : remapped assigned.remap id = id := by
  apply prepared.renames.fixed
  rintro row member rfl
  exact prepared.leaving.leavable.apart _ (assigned_live prepared.leaving.fresh.enough member) here

theorem row_of_group_copy {copy : Assigned × GroupPayload} (member : copy ∈ groups) :
    copy.1 ∈ assignedRows spaces draws ∧ copy.1.source.record.kind = .Group := by
  have inRows : copy.1 ∈ groups.map Prod.fst := List.mem_map_of_mem member
  rw [prepared.copied.groupRows, List.mem_filter] at inRows
  exact ⟨inRows.1, by simpa using inRows.2⟩

theorem row_of_host_copy {copy : Assigned × HostPayload} (member : copy ∈ hosts) :
    copy.1 ∈ assignedRows spaces draws ∧ copy.1.source.record.kind ≠ .Group := by
  have inRows : copy.1 ∈ hosts.map Prod.fst := List.mem_map_of_mem member
  rw [prepared.copied.hostRows, List.mem_filter] at inRows
  exact ⟨inRows.1, by simpa using inRows.2⟩

theorem group_copy_of_live {entry : String × LocalRecord} (live : entry ∈ liveRows spaces)
    (kind : entry.2.record.kind = .Group) :
    ∃ copy ∈ groups, copy.1.spaceId = entry.1 ∧ copy.1.source = entry.2 := by
  obtain ⟨row, member, space, source⟩ := exists_assigned prepared.leaving.fresh.enough live
  have inRows : row ∈ groups.map Prod.fst := by
    rw [prepared.copied.groupRows]
    exact List.mem_filter.mpr ⟨member, by simp [source, kind]⟩
  obtain ⟨copy, inGroups, rfl⟩ := List.mem_map.mp inRows
  exact ⟨copy, inGroups, space, source⟩

theorem host_copy_of_live {entry : String × LocalRecord} (live : entry ∈ liveRows spaces)
    (kind : entry.2.record.kind ≠ .Group) :
    ∃ copy ∈ hosts, copy.1.spaceId = entry.1 ∧ copy.1.source = entry.2 := by
  obtain ⟨row, member, space, source⟩ := exists_assigned prepared.leaving.fresh.enough live
  have inRows : row ∈ hosts.map Prod.fst := by
    rw [prepared.copied.hostRows]
    exact List.mem_filter.mpr ⟨member, by simp [source, kind]⟩
  obtain ⟨copy, inHosts, rfl⟩ := List.mem_map.mp inRows
  exact ⟨copy, inHosts, space, source⟩

theorem distinct_rows : ((assignedRows spaces draws).map (·.id)).Nodup :=
  prepared.leaving.fresh.distinct.sublist assigned_ids.sublist

/-- A copied group passes its check under its new id. -/
theorem valid_group_copy {copy : Assigned × GroupPayload} (member : copy ∈ groups) :
    validateGroup { id := copy.1.id, scope := .Local, payload := copy.2 } = .ok () := by
  obtain ⟨inRows, kind⟩ := prepared.row_of_group_copy member
  have live := assigned_live prepared.leaving.fresh.enough inRows
  obtain ⟨found, decodes, shape, named⟩ := prepared.copied.groupCopies copy member
  obtain ⟨_, _, _, _, read⟩ := decodeGroup_live decodes
  have valid := decodeGroup_valid decodes
  have hexes := valid
  simp only [validateGroup, Result.check_eq_ok, Result.refuse_eq_ok, Result.forSome_eq_ok,
    Bool.or_eq_false_iff] at hexes
  obtain ⟨_, ⟨_, parentHex⟩, _, _, _, _, jumpsHex⟩ := hexes
  rw [shape]
  refine validateGroup_moved valid (prepared.leaving.fresh.hex _ (assigned_drawn inRows)) named ?_ ?_ ?_
  · intro parent above
    rw [above] at parentHex
    exact prepared.rename_hex (by simpa using parentHex)
  · intro list given jump inList
    have own := jumpsHex list given
    simp only [validateGroupJumps, Result.refuse_eq_ok, Bool.or_eq_false_iff, List.any_eq_false] at own
    exact prepared.rename_hex (by simpa using own.1.2 jump inList)
  · intro list given a inA b inB same
    have plain {jump : String} (inList : jump ∈ list) : jump ∉ draws := by
      intro drawn
      refine prepared.leaving.fresh.unmentioned jump drawn _ live ?_
      rw [rowJumps, if_pos kind, read, Option.bind_some, given, Option.getD_some]
      exact inList
    exact prepared.rename_injective (plain inA) (plain inB) same

/-- The rows the plan adds to the groups of this device. -/
theorem candidate_groups : (candidateState state final.groups).local.groups =
    state.local.groups.insertAll (groups.map fun copy =>
      (recordKey .Group copy.1.id, (plannedGroup state.deviceId now copy).local)) := by
  simp only [candidateState, prepared.copied.plannedGroups, BTreeMap.insertAll, List.foldl_map]
  rfl

theorem distinct_group_keys : ((groups.map fun copy =>
    (recordKey .Group copy.1.id, (plannedGroup state.deviceId now copy).local)).map Prod.fst).Nodup := by
  have ids : (groups.map fun copy => copy.1.id).Nodup := by
    have rows := prepared.distinct_rows.sublist
      ((List.filter_sublist (p := fun row : Assigned => row.source.record.kind == .Group)).map (·.id))
    rw [← prepared.copied.groupRows, List.map_map] at rows
    exact rows
  rw [List.map_map]
  have keys := ids.map (f := recordKey .Group) (fun a b same => (recordKey_injective same).2)
  rwa [List.map_map] at keys

theorem isSlot : isSlotId state.deviceId = true := prepared.leaving.readable.header.device

theorem candidate_copy {copy : Assigned × GroupPayload} (member : copy ∈ groups) :
    group (candidateState state final.groups) .Local copy.1.id =
      .ok { id := copy.1.id, scope := .Local, payload := copy.2 } := by
  have held : (candidateState state final.groups).local.groups[recordKey .Group copy.1.id]? =
      some (plannedGroup state.deviceId now copy).local := by
    rw [prepared.candidate_groups]
    exact BTreeMap.get?_insertAll_of_mem prepared.distinct_group_keys (List.mem_map.mpr ⟨copy, member, rfl⟩)
  obtain ⟨inRows, kind⟩ := prepared.row_of_group_copy member
  have live := (prepared.leaving.live_row (assigned_live prepared.leaving.fresh.enough inRows)).2.1
  have decodes : decodeGroup (plannedGroup state.deviceId now copy).local.record .Local =
      .ok (.Live { id := copy.1.id, scope := .Local, payload := copy.2 }) :=
    decodeGroup_copied kind live (prepared.valid_group_copy member)
  have cached : validateCache (recordKey .Group copy.1.id) (plannedGroup state.deviceId now copy).local = .ok () := by
    rw [validateCache_isOk]
    exact
      { «public» := by simp [plannedGroup, copiedRow, kind, RecordKind.isSecret]
        key := by simp [plannedGroup, copiedRow, kind]
        version := by simp [plannedGroup, copiedRow]
        device := prepared.isSlot }
  have free : shadowed (∅ : BTreeMap SealedRecord) (some (plannedGroup state.deviceId now copy).local) .Group
      copy.1.id = false := by simp [shadowed]
  rw [group, groupRecords, Result.ok_bind]
  simp only [held, scopeSealed, free, Result.refuse_false, Result.ok_bind, cached, decodes, Validated.toRepo,
    Except.mapError]

/-- The groups of this device are found as before. -/
theorem candidate_local {id : String} {found : GroupRecord}
    (read : group (sourceState state spaces) .Local id = .ok found) :
    group (candidateState state final.groups) .Local id = .ok found ∧ id ∈ localIds state := by
  obtain ⟨_, row, held, decodes⟩ := group_eq_ok read
  have kind := (decodeGroup_live decodes).1
  have cached := (prepared.leaving.readable.groups _ List.mem_cons_self _ _ held).cached kind
  have here : id ∈ localIds state := by
    rw [(recordKey_injective cached.key).2]
    exact List.mem_map_of_mem (f := fun row : LocalRecord => row.record.id)
      (List.mem_append_right _ (BTreeMap.mem_values.mpr ⟨_, held⟩))
  refine ⟨?_, here⟩
  have kept : (candidateState state final.groups).local.groups[recordKey .Group id]? =
      state.local.groups[recordKey .Group id]? := by
    rw [prepared.candidate_groups]
    apply BTreeMap.get?_insertAll_of_not_mem
    rw [List.map_map]
    intro member
    obtain ⟨copy, inGroups, same⟩ := List.mem_map.mp member
    have drawn := assigned_drawn (prepared.row_of_group_copy inGroups).1
    rw [(recordKey_injective same).2] at drawn
    exact prepared.leaving.local_not_drawn here drawn
  rw [← read]
  exact group_local_congr kept

/-! ## Counterparts -/

theorem shared_groups (spaceId : String) :
    GroupsMove (sourceState state spaces) (.Space spaceId) (candidateState state final.groups) .Local
      (remapped assigned.remap) (SameDefaults (remapped assigned.remap)) where
  found := by
    intro id found read
    obtain ⟨row, live, kind, named, decodes⟩ := prepared.leaving.group_live read
    obtain ⟨copy, member, _, source⟩ := prepared.group_copy_of_live live kind
    obtain ⟨other, decodes', shape, _⟩ := prepared.copied.groupCopies copy member
    simp only at source
    rw [source, decodeGroup_local decodes] at decodes'
    cases decodes'
    have moved : remapped assigned.remap id = copy.1.id := by
      rw [← named, ← source]
      exact prepared.renames.moved (prepared.row_of_group_copy member).1
    refine ⟨_, moved ▸ prepared.candidate_copy member, ?_, ?_⟩
    · show copy.2.defaults = _
      rw [shape]
      rfl
    · show copy.2.parentId = _
      rw [shape]
      rfl
  injective := by
    intro a b foundA foundB readA readB same
    have plain {id : String} {found : GroupRecord}
        (read : group (sourceState state spaces) (.Space spaceId) id = .ok found) : id ∉ draws := by
      obtain ⟨row, live, _, named, _⟩ := prepared.leaving.group_live read
      rw [← named]
      exact prepared.leaving.live_not_drawn live
    exact prepared.rename_injective (plain readA) (plain readB) same

/-- The host that stands for a host of the library on this device: its settings are the same under the new
ids, and its alias is the same or tells it apart. -/
structure Counterpart (P : Primitives) (state : SyncStateV3) (rename : String → String) (view : HostView)
    (host : HostRecord) : Prop where
  id : host.id = rename view.host.id
  scope : host.scope = .Local
  resolves : ∃ effective, resolveEffective P state host = .ok effective ∧
    effective.payload = movedHost rename host.payload.aliasName view.effectivePayload
  aliasName : host.payload.aliasName = view.host.payload.aliasName ∨
    view.host.scope ≠ .Local ∧ host.payload.aliasName = remappedAlias view.host.payload.aliasName host.id
  same : view.host.scope = .Local → host = view.host

theorem local_counterpart {view : HostView} (member : view ∈ library.hosts) (placed : view.host.scope = .Local) :
    Counterpart P (candidateState state final.groups) (remapped assigned.remap) view view.host := by
  obtain ⟨row, shown⟩ := shown_of_mem prepared.leaving.listed member
  have here := localIds_of_holds shown.holds placed
  obtain ⟨effective, resolved, payload⟩ := prepared.leaving.resolved member
  obtain ⟨path, walked, rfl, valid⟩ := resolveEffective_eq_ok.mp resolved
  rw [placed] at walked
  have walked' := ancestorPath_kept (fun _ _ read => (prepared.candidate_local read).1) walked
  have groupId : view.host.payload.groupId.map (remapped assigned.remap) = view.host.payload.groupId := by
    cases grouped : view.host.payload.groupId with
    | none => rfl
    | some id =>
      obtain ⟨found, read⟩ := prepared.leaving.group_of_host member grouped
      rw [placed] at read
      rw [Option.map_some, prepared.rename_local (prepared.candidate_local read).2]
  have jumps : view.effectivePayload.jump.map (remapped assigned.remap) = view.effectivePayload.jump := by
    rw [List.map_congr_left (g := id), List.map_id]
    intro jump inJumps
    obtain ⟨other, inHosts, otherPlaced, named⟩ := prepared.leaving.leavable.localJumps view member placed jump inJumps
    obtain ⟨otherRow, otherShown⟩ := shown_of_mem prepared.leaving.listed inHosts
    exact prepared.rename_local (named ▸ localIds_of_holds otherShown.holds otherPlaced)
  refine ⟨(prepared.rename_local here).symm, placed, ?_, .inl rfl, fun _ => rfl⟩
  refine ⟨inheritFields path view.host, resolveEffective_eq_ok.mpr ⟨path, ?_, rfl, valid⟩, ?_⟩
  · rw [placed, walked']
  · obtain ⟨aliasName, group⟩ := inheritFields_identity path view.host
    rw [movedHost, jumps, payload, ← aliasName, group, groupId, ← group]

theorem shared_counterpart {view : HostView} (member : view ∈ library.hosts) {copy : Assigned × HostPayload}
    (inCopies : copy ∈ hosts) {spaceId : String} (placed : view.host.scope = .Space spaceId)
    {row : LocalRecord} (shown : Shown P (sourceState state spaces) view row) (source : copy.1.source = row) :
    Counterpart P (candidateState state final.groups) (remapped assigned.remap) view (copiedHost copy) := by
  obtain ⟨live, named, kind⟩ := live_of_holds shown.holds placed
  obtain ⟨inRows, _⟩ := prepared.row_of_host_copy inCopies
  have moved : remapped assigned.remap view.host.id = copy.1.id := by
    rw [← named, ← source]
    exact prepared.renames.moved inRows
  obtain ⟨other, decodes, shape, aliases⟩ := prepared.copied.hostCopies copy inCopies
  rw [source, decodeHost_local shown.holds.decodes] at decodes
  cases decodes
  obtain ⟨effective, resolved, payload⟩ := prepared.leaving.resolved member
  obtain ⟨path, walked, rfl, valid⟩ := resolveEffective_eq_ok.mp resolved
  rw [placed] at walked
  -- the groups were moved with the host, so its path is the moved path
  obtain ⟨path', walked', paths⟩ := ancestorPath_moved (prepared.shared_groups spaceId) walked
  have inherited : (inheritFields path' (copiedHost copy)).payload =
      movedHost (remapped assigned.remap) copy.2.aliasName (inheritFields path view.host).payload :=
    inheritFields_moved paths shape
  have ownAlias : isCliAlias view.host.payload.aliasName = true := by
    obtain ⟨_, _, _, _, _, own⟩ := decodeHost_live shown.holds.decodes
    simp only [validateHostShape, Result.check_eq_ok, Result.refuse_eq_ok] at own
    simpa using own.2.2.2.2.2.1
  have hex : isHostId copy.1.id = true := prepared.leaving.fresh.hex _ (assigned_drawn inRows)
  have cli : isCliAlias copy.2.aliasName = true := by
    obtain same | apart := aliases
    · rw [same]
      exact ownAlias
    · rw [apart]
      exact isCliAlias_remapped ownAlias hex
  have hexes := valid
  simp only [validateHost, validateHostShape, Result.check_eq_ok, Result.refuse_eq_ok, Bool.or_eq_false_iff,
    List.any_eq_false] at hexes
  obtain ⟨⟨_, _, ⟨groupHex, _⟩, _, _, _, _, _, _, _, _, _, jumpsHex, _⟩, _⟩ := hexes
  -- ids of the library were not drawn, so the renaming keeps them apart
  have plain : ∀ a ∈ view.host.id :: view.effectivePayload.jump, a ∉ draws := by
    intro a known
    obtain rfl | jumps := List.mem_cons.mp known
    · exact prepared.leaving.host_not_drawn member
    · obtain ⟨other, inHosts, rfl⟩ := prepared.leaving.jump_known member jumps
      exact prepared.leaving.host_not_drawn inHosts
  rw [payload] at plain
  have valid' : validateHost P
      { id := remapped assigned.remap view.host.id, scope := .Local
        payload := movedHost (remapped assigned.remap) copy.2.aliasName (inheritFields path view.host).payload } =
          .ok () := by
    refine validateHost_moved valid (by rw [moved]; exact hex) cli ?_ ?_ ?_
    · intro group grouped
      rw [grouped] at groupHex
      exact prepared.rename_hex (by simpa using groupHex)
    · intro jump inJumps
      exact prepared.rename_hex (by simpa using jumpsHex jump inJumps)
    · intro a inA b inB
      exact prepared.rename_injective (plain a inA) (plain b inB)
  refine
    { id := moved.symm
      scope := rfl
      resolves := ⟨inheritFields path' (copiedHost copy), resolveEffective_eq_ok.mpr ⟨path', ?_, rfl, ?_⟩, ?_⟩
      aliasName := ?_
      same := fun here => by rw [placed] at here; cases here }
  · show ancestorPath _ _ copy.2.groupId = _
    rw [shape]
    exact walked'
  · rw [inherited]
    simp only [moved] at valid'
    exact valid'
  · rw [inherited, payload]
    rfl
  · obtain same | apart := aliases
    · exact .inl same
    · exact .inr ⟨by rw [placed]; simp, apart⟩

/-- Every host of the library has its counterpart among the hosts of the plan. -/
theorem counterpart_of_view {view : HostView} (member : view ∈ library.hosts) :
    ∃ host ∈ final.existing,
      Counterpart P (candidateState state final.groups) (remapped assigned.remap) view host := by
  obtain ⟨row, shown⟩ := shown_of_mem prepared.leaving.listed member
  rw [prepared.copied.existing]
  cases placed : view.host.scope with
  | «Local» =>
    exact ⟨view.host, List.mem_append_left _ ((prepared.onDevice _).mpr ⟨placed, row, shown.holds⟩),
      prepared.local_counterpart member placed⟩
  | Space spaceId =>
    obtain ⟨live, _, kind⟩ := live_of_holds shown.holds placed
    obtain ⟨copy, inCopies, _, source⟩ := prepared.host_copy_of_live live (by simp [kind])
    exact ⟨copiedHost copy, List.mem_append_right _ (List.mem_map_of_mem inCopies),
      prepared.shared_counterpart member inCopies placed shown source⟩

/-- Every host of the plan is the counterpart of a host of the library. -/
theorem view_of_existing {host : HostRecord} (member : host ∈ final.existing) :
    ∃ view ∈ library.hosts,
      Counterpart P (candidateState state final.groups) (remapped assigned.remap) view host := by
  rw [prepared.copied.existing] at member
  obtain here | shared := List.mem_append.mp member
  · obtain ⟨placed, row, holds⟩ := (prepared.onDevice host).mp here
    obtain ⟨view, inHosts, rfl, _⟩ := exists_view prepared.leaving.listed holds
    exact ⟨view, inHosts, prepared.local_counterpart inHosts placed⟩
  · obtain ⟨copy, inCopies, rfl⟩ := List.mem_map.mp shared
    obtain ⟨inRows, kind⟩ := prepared.row_of_host_copy inCopies
    have live := assigned_live prepared.leaving.fresh.enough inRows
    obtain ⟨source, placed, _, _, holds⟩ := prepared.leaving.live_host live kind
    obtain ⟨view, inHosts, rfl, shown⟩ := exists_view prepared.leaving.listed holds
    exact ⟨view, inHosts, prepared.shared_counterpart inHosts inCopies placed shown rfl⟩

theorem distinct_existing : (final.existing.map (·.id)).Nodup := by
  rw [prepared.copied.existing, List.map_append, List.nodup_append]
  refine ⟨prepared.distinctLocals, ?_, ?_⟩
  · have rows := prepared.distinct_rows.sublist
      ((List.filter_sublist (p := fun row : Assigned => row.source.record.kind != .Group)).map (·.id))
    rw [← prepared.copied.hostRows, List.map_map] at rows
    rw [List.map_map]
    exact rows
  · rintro id here other there rfl
    obtain ⟨host, inLocals, rfl⟩ := List.mem_map.mp here
    obtain ⟨copied, inCopied, same⟩ := List.mem_map.mp there
    obtain ⟨copy, inCopies, rfl⟩ := List.mem_map.mp inCopied
    obtain ⟨placed, row, holds⟩ := (prepared.onDevice host).mp inLocals
    refine prepared.leaving.local_not_drawn (localIds_of_holds holds placed) ?_
    rw [← same]
    exact assigned_drawn (prepared.row_of_host_copy inCopies).1

/-! ## The hosts of the plan validate -/

theorem plan_renamed : Renamed (remapped assigned.remap) library.hosts
    ((final.existing.map fun host =>
      { host with payload := effectiveOf P (candidateState state final.groups) host }).map HostRecord.plainView) := by
  have plain : ∀ a ∈ hostNames library.hosts, a ∉ draws := by
    intro a known
    obtain ⟨view, member, named⟩ := List.mem_flatMap.mp known
    obtain rfl | jumps := List.mem_cons.mp named
    · exact prepared.leaving.host_not_drawn member
    · obtain ⟨other, inHosts, rfl⟩ := prepared.leaving.jump_known member jumps
      exact prepared.leaving.host_not_drawn inHosts
  have injective : ∀ a ∈ hostNames library.hosts, ∀ b ∈ hostNames library.hosts,
      remapped assigned.remap a = remapped assigned.remap b → a = b :=
    fun a inA b inB => prepared.rename_injective (plain a inA) (plain b inB)
  have entry {view : HostView} {host : HostRecord}
      (counterpart : Counterpart P (candidateState state final.groups) (remapped assigned.remap) view host) :
      (host.id, (effectiveOf P (candidateState state final.groups) host).jump) =
        (remapped assigned.remap view.host.id, view.effectivePayload.jump.map (remapped assigned.remap)) := by
    obtain ⟨effective, resolves, payload⟩ := counterpart.resolves
    rw [effectiveOf_eq resolves, payload, counterpart.id]
    rfl
  refine ⟨injective, ?_⟩
  rw [List.map_map, List.map_map]
  -- both lists have every id once, so it is enough that they have the same entries
  rw [List.perm_ext_iff_of_nodup]
  · rintro ⟨id, jump⟩
    simp only [List.mem_map, Function.comp_apply]
    constructor
    · rintro ⟨host, member, same⟩
      obtain ⟨view, inHosts, counterpart⟩ := prepared.view_of_existing member
      exact ⟨view, inHosts, (entry counterpart).symm.trans same⟩
    · rintro ⟨view, inHosts, same⟩
      obtain ⟨host, member, counterpart⟩ := prepared.counterpart_of_view inHosts
      exact ⟨host, member, (entry counterpart).trans same⟩
  · apply List.Nodup.of_map Prod.fst
    rw [List.map_map]
    exact prepared.distinct_existing
  · apply List.Nodup.of_map Prod.fst
    rw [List.map_map]
    have ids := prepared.leaving.distinct_ids.map_on (f := remapped assigned.remap) (by
      intro a inA b inB same
      obtain ⟨view, member, rfl⟩ := List.mem_map.mp inA
      obtain ⟨view', member', rfl⟩ := List.mem_map.mp inB
      exact injective _ (id_mem_hostNames member) _ (id_mem_hostNames member') same)
    rwa [List.map_map] at ids

theorem plan_hosts : HostSet P (final.existing.map fun host =>
    { host with payload := effectiveOf P (candidateState state final.groups) host }) where
  valid := by
    intro effective member
    obtain ⟨host, inExisting, rfl⟩ := List.mem_map.mp member
    obtain ⟨view, _, counterpart⟩ := prepared.view_of_existing inExisting
    obtain ⟨settings, resolves, _⟩ := counterpart.resolves
    obtain ⟨_, _, _, valid⟩ := resolveEffective_eq_ok.mp resolves
    rw [effectiveOf_eq resolves]
    exact valid
  ids := by
    rw [List.map_map]
    exact prepared.distinct_existing
  aliases := by
    rw [List.map_map]
    apply List.Nodup.of_map Prod.snd
    rw [List.map_map]
    have same : final.existing.map (Prod.snd ∘ (fun host : HostRecord => (host.scope, host.payload.aliasName)) ∘
        fun host => { host with payload := effectiveOf P (candidateState state final.groups) host }) =
          final.existing.map (·.payload.aliasName) := by
      apply List.map_congr_left
      intro host member
      obtain ⟨view, _, counterpart⟩ := prepared.view_of_existing member
      obtain ⟨settings, resolves, payload⟩ := counterpart.resolves
      simp only [Function.comp_apply, effectiveOf_eq resolves, payload, movedHost]
    rw [same]
    exact prepared.copied.distinctAliases
  routes := by
    intro effective member
    obtain ⟨host, inExisting, rfl⟩ := List.mem_map.mp member
    obtain ⟨view, inHosts, counterpart⟩ := prepared.view_of_existing inExisting
    obtain ⟨indices, walked⟩ := Result.isOk_iff.mp (prepared.leaving.clean view inHosts).route
    have resolved : routeIds library.hosts view.host.id = .ok (indices.map (idAt library.hosts)) := by
      rw [routeIds, walked]
      rfl
    have kept := prepared.plan_renamed.routeIds_ok resolved
    rw [← counterpart.id] at kept
    exact ⟨_, kept⟩

end Prepared

end Sshelter.Sync.RecordLeave
