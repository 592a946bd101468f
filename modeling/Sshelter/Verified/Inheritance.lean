import Sshelter.Verified.Library
import Sshelter.Verified.PlainPrimitives

/-! # Ancestors and inherited settings

`ParentChain` follows the parents of a group through live, unshadowed records of one scope.
It is a finite derivation, and since a record has one parent it never meets a group twice.
The loop of `ancestor_path` returns exactly such a chain of at most 32 groups.  What a host
inherits along it is stated field by field: the nearest group that sets the field decides.
-/

namespace Sshelter.Sync

variable {P : Primitives} {state : SyncStateV3} {scope : HostScope}

/-! ## The parent chain -/

/-- `found` is a live group of a scope that can be read: its row is a valid record that
decodes, and no retained envelope wins over it. -/
structure StandingGroup (state : SyncStateV3) (scope : HostScope) (id : String) (found : GroupRecord) : Prop where
  row : ∃ rows row, groupRecords state scope = .ok rows ∧ rows[recordKey .Group id]? = some row ∧
    shadowed (scopeSealed state scope) (some row) .Group id = false ∧
    validateCache (recordKey .Group id) row = .ok () ∧ decodeGroup row.record scope = .ok (.Live found)

theorem standingGroup_iff {id : String} {found : GroupRecord} :
    StandingGroup state scope id found ↔ group state scope id = .ok found := by
  constructor
  · rintro ⟨rows, row, read, here, clear, cached, decodes⟩
    simp [group, read, here, clear, cached, decodes, Validated.toRepo, Except.mapError]
  · intro read
    obtain ⟨rows, read_, read⟩ := Result.bind_eq_ok.mp read
    rw [Result.refuse_bind_eq_ok] at read
    obtain ⟨clear, read⟩ := read
    split at read
    · cases read
    case h_2 row here =>
      rw [Result.check_eq_ok] at read
      obtain ⟨cached, read⟩ := read
      obtain ⟨decoded, decodes, read⟩ := Result.bind_eq_ok.mp read
      cases decoded with
      | Tombstone id => cases read
      | Live live =>
        obtain rfl := Except.ok.inj read
        rw [here] at clear
        exact ⟨rows, row, read_, here, clear, cached, Result.mapError_eq_ok.mp decodes⟩

theorem StandingGroup.id_eq {id : String} {found : GroupRecord} (live : StandingGroup state scope id found) :
    found.id = id := by
  obtain ⟨rows, row, _, _, _, cached, decodes⟩ := live.row
  obtain ⟨kind, _, named, _⟩ := decodeGroup_live decodes
  obtain ⟨_, key, _⟩ := validateCache_isOk.mp cached
  rw [kind] at key
  rw [named, (recordKey_injective key).2]

/-- The groups from `id` up, nearest first. -/
inductive ParentChain (state : SyncStateV3) (scope : HostScope) : Option String → List GroupRecord → Prop
  | root : ParentChain state scope none []
  | parent {id : String} {found : GroupRecord} {path : List GroupRecord} (live : StandingGroup state scope id found)
      (rest : ParentChain state scope found.payload.parentId path) :
      ParentChain state scope (some id) (found :: path)

/-- The loop, with `path` collected and `seen` visited so far. -/
theorem ancestorLoop_eq_ok {fuel : Nat} {path : List GroupRecord} {seen : List String} {id : Option String}
    {result : List GroupRecord} (enough : maxAncestors + 1 ≤ path.length + fuel) (short : path.length ≤ maxAncestors) :
    ancestorLoop state scope fuel path seen id = .ok result ↔
      ∃ rest, ParentChain state scope id rest ∧ result = path.reverse ++ rest ∧ (rest.map (·.id)).Nodup ∧
        (∀ found ∈ rest, found.id ∉ seen) ∧ path.length + rest.length ≤ maxAncestors := by
  induction fuel generalizing path seen id with
  | zero => omega
  | succ fuel ih =>
    cases id with
    | none =>
      rw [ancestorLoop]
      constructor
      · intro done
        obtain rfl := Except.ok.inj done
        exact ⟨[], .root, by simp, by simp, by simp, by simpa using short⟩
      · rintro ⟨rest, chain, rfl, _⟩
        cases chain
        simp
    | some id =>
      rw [ancestorLoop]
      by_cases stop : path.length = maxAncestors ∨ id ∈ seen
      · rw [if_pos stop]
        simp only [reduceCtorEq, false_iff, not_exists, not_and]
        rintro rest chain _ _ unseen bound
        cases chain with
        | parent live later =>
          -- one group more would be the 33rd, or one met before
          obtain full | again := stop
          · simp only [List.length_cons] at bound
            omega
          · exact unseen _ List.mem_cons_self (live.id_eq ▸ again)
      · rw [if_neg stop, Result.bind_eq_ok]
        rw [not_or] at stop
        constructor
        · rintro ⟨found, read, walked⟩
          have live := standingGroup_iff.mpr read
          obtain ⟨rest, chain, rfl, distinct, unseen, bound⟩ :=
            (ih (by simp only [List.length_cons]; omega) (by simp only [List.length_cons]; omega)).mp walked
          refine ⟨found :: rest, .parent live chain, by simp, ?_, ?_, by simp only [List.length_cons] at bound ⊢; omega⟩
          · rw [List.map_cons, List.nodup_cons]
            refine ⟨fun again => ?_, distinct⟩
            obtain ⟨other, member, same⟩ := List.mem_map.mp again
            exact unseen other member (by simp [same, live.id_eq])
          · intro other member
            obtain rfl | later := List.mem_cons.mp member
            · rw [live.id_eq]
              exact stop.2
            · exact fun before => unseen other later (List.mem_cons_of_mem _ before)
        · rintro ⟨rest, chain, rfl, distinct, unseen, bound⟩
          cases chain with
          | @parent _ found rest live later =>
            rw [List.map_cons, List.nodup_cons, live.id_eq] at distinct
            refine ⟨found, standingGroup_iff.mp live, ?_⟩
            simp only [List.length_cons] at bound
            refine (ih (by simp only [List.length_cons]; omega) (by simp only [List.length_cons]; omega)).mpr
              ⟨rest, later, by simp, distinct.2, ?_, by simp only [List.length_cons]; omega⟩
            intro other member
            rw [List.mem_cons, not_or]
            exact ⟨fun same => distinct.1 (List.mem_map.mpr ⟨other, member, same⟩),
              unseen other (List.mem_cons_of_mem _ member)⟩

theorem ancestorPath_eq_ok {id : Option String} {path : List GroupRecord} :
    ancestorPath state scope id = .ok path ↔
      ParentChain state scope id path ∧ (path.map (·.id)).Nodup ∧ path.length ≤ maxAncestors := by
  rw [ancestorPath, ancestorLoop_eq_ok (by simp) (by simp)]
  simp

/-! ## Inherited fields -/

/-- The value a field takes along a path: that of the nearest group that sets it, else the
built-in default. -/
inductive Nearest {α : Type} (path : List GroupRecord) (select : GroupDefaults → Option α) (default : α) : α → Prop
  | set {before after : List GroupRecord} {found : GroupRecord} {value : α} (place : path = before ++ found :: after)
      (unset : ∀ other ∈ before, select other.payload.defaults = none)
      (sets : select found.payload.defaults = some value) : Nearest path select default value
  | unset (unset : ∀ other ∈ path, select other.payload.defaults = none) : Nearest path select default default

/-- The value of one field in the effective settings. -/
def Settles {α : Type} (path : List GroupRecord) (inherited : Prop) (select : GroupDefaults → Option α)
    (default stored value : α) : Prop :=
  (inherited → Nearest path select default value) ∧ (¬ inherited → value = stored)

/-- Every field that cannot be inherited is as the host stores it. -/
def KeepsStored (host : HostRecord) (p : HostPayload) : Prop :=
  p = { host.payload with
    port := p.port, user := p.user, jump := p.jump, keepaliveSecs := p.keepaliveSecs
    keepaliveMaxMissed := p.keepaliveMaxMissed, connectTimeoutSecs := p.connectTimeoutSecs
    auth := p.auth, keyId := p.keyId }

/-- `p` are the settings of the host with those it inherits along the path. -/
structure Inherits (path : List GroupRecord) (host : HostRecord) (p : HostPayload) : Prop where
  port : Settles path (.Port ∈ host.payload.inherit) (·.port) 22 host.payload.port p.port
  user : Settles path (.User ∈ host.payload.inherit) (·.user) "" host.payload.user p.user
  jump : Settles path (.Jump ∈ host.payload.inherit) (·.jump) [] host.payload.jump p.jump
  keepaliveSecs : Settles path (.KeepaliveSecs ∈ host.payload.inherit) (·.keepaliveSecs) 30
    host.payload.keepaliveSecs p.keepaliveSecs
  keepaliveMaxMissed : Settles path (.KeepaliveMaxMissed ∈ host.payload.inherit) (·.keepaliveMaxMissed) 3
    host.payload.keepaliveMaxMissed p.keepaliveMaxMissed
  connectTimeoutSecs : Settles path (.ConnectTimeoutSecs ∈ host.payload.inherit) (·.connectTimeoutSecs) 15
    host.payload.connectTimeoutSecs p.connectTimeoutSecs
  /-- The kind of authentication and the key come from the same group. -/
  authentication : Settles path (.Authentication ∈ host.payload.inherit) (·.authentication)
    { auth := .Password, keyId := none } { auth := host.payload.auth, keyId := host.payload.keyId }
    { auth := p.auth, keyId := p.keyId }
  stored : KeepsStored host p

/-- What the source takes for a field. -/
def takenDefault {α : Type} (path : List GroupRecord) (select : GroupDefaults → Option α) (default : α) : α :=
  ((nearestDefault path select).map Prod.snd).getD default

theorem takenDefault_nearest {α : Type} (path : List GroupRecord) (select : GroupDefaults → Option α) (default : α) :
    Nearest path select default (takenDefault path select default) := by
  unfold takenDefault
  cases nearest : nearestDefault path select with
  | none =>
    refine .unset fun other member => ?_
    simpa using List.findSome?_eq_none_iff.mp nearest other member
  | some entry =>
    obtain ⟨before, found, after, place, here, skipped⟩ := List.findSome?_eq_some_iff.mp nearest
    obtain ⟨value, sets, rfl⟩ := Option.map_eq_some_iff.mp here
    exact .set place (fun other member => by simpa using skipped other member) sets

/-- One field of the effective settings, seen through `get`: no other field touches it. -/
theorem inheritFields_get {β : Type} {path : List GroupRecord} {host : HostRecord} {get : HostPayload → β}
    {field : InheritedField} {value : β} (sets : ∀ p, get (inheritField path p field).1 = value)
    (keeps : ∀ p other, other ≠ field → get (inheritField path p other).1 = get p) :
    get (inheritFields path host).payload = if field ∈ host.payload.inherit then value else get host.payload := by
  rw [inheritFields_payload]
  generalize host.payload.inherit = fields
  generalize host.payload = p
  induction fields generalizing p with
  | nil => simp
  | cons first rest ih =>
    rw [List.foldl_cons, ih]
    by_cases later : field ∈ rest
    · simp [later]
    · by_cases here : first = field
      · subst here
        simp [later, sets]
      · simp [later, Ne.symm here, keeps p first here]

/-- One field settles as its lemma above says. -/
theorem settles_of_get {α : Type} {path : List GroupRecord} {host : HostRecord} (get : HostPayload → α)
    {field : InheritedField} {select : GroupDefaults → Option α} {default : α}
    (sets : ∀ p, get (inheritField path p field).1 = takenDefault path select default)
    (keeps : ∀ p other, other ≠ field → get (inheritField path p other).1 = get p) :
    Settles path (field ∈ host.payload.inherit) select default (get host.payload)
      (get (inheritFields path host).payload) := by
  rw [inheritFields_get sets keeps]
  constructor
  · intro inherited
    rw [if_pos inherited]
    exact takenDefault_nearest path select default
  · intro own
    rw [if_neg own]

theorem inheritFields_inherits (path : List GroupRecord) (host : HostRecord) :
    Inherits path host (inheritFields path host).payload := by
  refine
    { port := settles_of_get (·.port) ?_ ?_
      user := settles_of_get (·.user) ?_ ?_
      jump := settles_of_get (·.jump) ?_ ?_
      keepaliveSecs := settles_of_get (·.keepaliveSecs) ?_ ?_
      keepaliveMaxMissed := settles_of_get (·.keepaliveMaxMissed) ?_ ?_
      connectTimeoutSecs := settles_of_get (·.connectTimeoutSecs) ?_ ?_
      authentication := settles_of_get (fun p => GroupAuthentication.mk p.auth p.keyId) ?_ ?_
      stored := ?_ }
  case refine_15 =>
    refine inheritFields_induction path (KeepsStored host) rfl fun p kept field _ => ?_
    unfold KeepsStored at kept ⊢
    cases field <;> simp only [inheritField] <;> split <;> rw [kept]
  -- the field itself takes the nearest value, the other fields leave it alone
  all_goals intro p
  all_goals first
    | (intro other ne
       cases other <;> simp only [inheritField] <;> first | contradiction | (split <;> rfl))
    | (simp only [inheritField, takenDefault]
       split <;> simp [*])

/-! ## Resolving -/

/-- The path of a host exists exactly when the chain of its parents does, without a group
met twice and with at most 32 groups.  Then every inherited field has the value of the
nearest group that sets it, or the built-in default, every other field is as stored, and
the host resolves to these settings unless they are not those of a valid host. -/
theorem ancestors_decide_settings (P : Primitives) (state : SyncStateV3) (host : HostRecord) :
    (∀ path, ancestorPath state host.scope host.payload.groupId = .ok path ↔
      ParentChain state host.scope host.payload.groupId path ∧ (path.map (·.id)).Nodup ∧ path.length ≤ 32) ∧
    ∀ path, ancestorPath state host.scope host.payload.groupId = .ok path →
      ∃ effective, Inherits path host effective.payload ∧
        resolveEffective P state host =
          match validateHost P { host with payload := effective.payload } with
          | .ok () => .ok effective
          | .error error => .error (.Validation error) := by
  refine ⟨fun path => ancestorPath_eq_ok, fun path walked => ?_⟩
  refine ⟨inheritFields path host, inheritFields_inherits path host, ?_⟩
  rw [resolveEffective, walked, Result.ok_bind]
  dsimp only
  cases validateHost P { host with payload := (inheritFields path host).payload } <;> rfl

namespace Sample

def gatewayGroupId : String := "eeeeeeeeeeeeeeee"

/-- A group whose default route goes through the sample host. -/
def gatewayGroup : Record :=
  { kind := .Group, id := gatewayGroupId, version := 1, updatedAtMs := 1, deviceId := device, deleted := false
    payload := GroupPayload.toJson
      { schema := GROUP_SCHEMA, name := "behind", parentId := none
        defaults := { GroupDefaults.empty with jump := some [hostId] } } }

def gatewayLibrary : SyncStateV3 :=
  { library space with
    «local» := { LocalState.default with
      groups := (∅ : BTreeMap LocalRecord).insert (recordKey .Group gatewayGroupId)
        { record := gatewayGroup, seq := 0, dirty := false } } }

/-- The sample host, put into that group. -/
def groupedGateway : HostRecord :=
  { id := hostId, scope := .Local
    payload := { hostPayload with
      schema := GROUPED_HOST_SCHEMA, groupId := some gatewayGroupId, inherit := [.Jump] } }

end Sample

/-- The path of a host can exist and the host still not resolve: here the settings it would
inherit send it through itself. -/
theorem inherited_jump_through_itself :
    (ancestorPath Sample.gatewayLibrary Sample.groupedGateway.scope Sample.groupedGateway.payload.groupId).isOk = true ∧
      resolveEffective (tablePrimitives [] []) Sample.gatewayLibrary Sample.groupedGateway =
        .error (.Validation (.JumpCycle Sample.hostId)) := by
  decide +kernel

end Sshelter.Sync
