import Sshelter.Verified.PlainPrimitives
import Sshelter.Verified.RotationLibrary
import Sshelter.Verified.RotationSource

/-! # A rotation keeps what it copies

`prepareTargets` on a source that `sourceFull` accepted: every row of the account and of its
spaces is there once under the new keys, with its revision, and the library that the copy shows
is the one that the source showed.
-/

namespace Sshelter.Sync.RecordRotation

variable {P : Primitives}

/-! ## The copy -/

/-- The account and the spaces of the source, under the new keys. -/
structure Copied (P : Primitives) (old new : ChainKeys) (mapping : BTreeMap String) (pending : MigrationGate)
    (account : AccountState) (spaces : BTreeMap SpaceStateV3) (target : AccountState)
    (targets : BTreeMap SpaceStateV3) (children : BTreeMap ChainKeys) : Prop where
  family : Children mapping children
  rows : CopiedAccount P old new mapping children pending account target
  sections : ∀ (oldId : String) space, spaces[oldId]? = some space → ∃ oldChild child copy,
    spaceKeys P old account oldId = .ok (some oldChild) ∧ children[oldId]? = some child ∧
      spaceKeys P new target child.chainId = .ok (some child) ∧ targets[child.chainId]? = some copy ∧
      CopiedSpace P oldChild child space copy
  only : ∀ (newId : String) copy, targets[newId]? = some copy →
    ∃ (oldId : String) (space : SpaceStateV3), mapping[oldId]? = some newId ∧ spaces[oldId]? = some space

theorem prepareTargets_copied (ideal : P.Ideal) {old new : ChainKeys} {draws : Draws}
    {op op' : PendingAccountOperation} {plan : RotationPlan} (planned : op.rotation = some plan)
    (accepted : Accepted P old plan.sourceAccount plan.sourceSpaces)
    (fresh : FreshMapping P old plan.sourceAccount plan.sourceSpaces plan.spaceIds)
    (prepared : prepareTargets P draws op old new = .ok op') :
    ∃ target targets children,
      op' = { op with preparedAccount := target, rotation := some { plan with targetSpaces := targets } } ∧
        Copied P old new plan.spaceIds (marker op plan .Publishing) plan.sourceAccount plan.sourceSpaces target
          targets children := by
  obtain ⟨plan', found, prepared⟩ := Result.bind_eq_ok.mp prepared
  rw [planned] at found
  cases found
  obtain ⟨children, drawn, prepared⟩ := Result.bind_eq_ok.mp prepared
  obtain ⟨records, typed, prepared⟩ := Result.bind_eq_ok.mp prepared
  obtain ⟨sealed, retained, prepared⟩ := Result.bind_eq_ok.mp prepared
  obtain ⟨targets, copies, prepared⟩ := Result.bind_eq_ok.mp prepared
  cases prepared
  have family := childKeys_children drawn
  refine ⟨_, targets, children, rfl, family, ?_, ?_, ?_⟩
  · exact copiedAccount ideal family fresh accepted.keyed accepted.marker rfl typed retained
  · intro oldId space held
    have ran : (oldId, space) ∈ plan.sourceSpaces.toList := BTreeMap.mem_toList.mpr held
    -- two spaces never share a new id, so no copy is written over another
    have apart : plan.sourceSpaces.toList.Pairwise fun a b => ∀ ea eb,
        targetSpace P draws plan.sourceAccount old children a = .ok ea →
          targetSpace P draws plan.sourceAccount old children b = .ok eb → ea.1 ≠ eb.1 := by
      refine List.Pairwise.imp_of_mem ?_ (List.pairwise_map.mp (BTreeMap.toList_keys_nodup plan.sourceSpaces))
      rintro ⟨a, spaceA⟩ ⟨b, spaceB⟩ memberA memberB distinct ⟨newA, copyA⟩ ⟨newB, copyB⟩ madeA madeB same
      obtain ⟨_, childA, _, givenA, namedA, _⟩ := targetSpace_copied ideal
        (accepted.spaceKeyed a spaceA (BTreeMap.mem_toList.mp memberA)).sealed madeA
      obtain ⟨_, childB, _, givenB, namedB, _⟩ := targetSpace_copied ideal
        (accepted.spaceKeyed b spaceB (BTreeMap.mem_toList.mp memberB)).sealed madeB
      have mappedA := family.mapped a childA givenA
      have mappedB := family.mapped b childB givenB
      rw [namedA, show newA = newB from same] at mappedA
      rw [namedB] at mappedB
      exact distinct (fresh.injective a b newB mappedA mappedB)
    obtain ⟨⟨newId, copy⟩, inTargets, made⟩ := (fill_oneForOne copies apart).exists_right ran
    obtain ⟨oldChild, child, credentials, given, rfl, copied⟩ :=
      targetSpace_copied ideal (accepted.spaceKeyed oldId space held).sealed made
    refine ⟨oldChild, child, copy, credentials, given, ?_, BTreeMap.mem_toList.mp inTargets, copied⟩
    exact spaceKeys_renewed ideal family fresh accepted.keyed accepted.marker rfl typed retained credentials given
  · intro newId copy held
    obtain ⟨⟨oldId, space⟩, member, made⟩ := fill_mem copies held
    have here := BTreeMap.mem_toList.mp member
    obtain ⟨_, child, _, given, rfl, _⟩ := targetSpace_copied ideal (accepted.spaceKeyed oldId space here).sealed made
    exact ⟨oldId, space, family.mapped oldId child given, here⟩

/-! ## The library of the copy -/

section Library
variable {old new : ChainKeys} {mapping : BTreeMap String} {pending : MigrationGate} {account target : AccountState}
  {spaces targets : BTreeMap SpaceStateV3} {children : BTreeMap ChainKeys}

theorem Copied.spacesMoved (copied : Copied P old new mapping pending account spaces target targets children)
    (accepted : Accepted P old account spaces) (fresh : FreshMapping P old account spaces mapping)
    (state : SyncStateV3) : SpacesMoved mapping { state with account := some account, spaces }
      { state with account := some target, spaces := targets } := by
  have place {oldId : String} {space : SpaceStateV3} (held : spaces[oldId]? = some space) :
      ∃ newId oldChild child copy, mapping[oldId]? = some newId ∧ targets[newId]? = some copy ∧
        CopiedSpace P oldChild child space copy := by
    obtain ⟨oldChild, child, copy, _, given, _, there, same⟩ := copied.sections oldId space held
    exact ⟨_, oldChild, child, copy, copied.family.mapped oldId child given, there, same⟩
  -- a space of the copy stands for exactly one of the source
  have origin {newId : String} {copy : SpaceStateV3} (held : targets[newId]? = some copy) :
      ∃ (oldId : String) (space : SpaceStateV3) (oldChild child : ChainKeys), mapping[oldId]? = some newId ∧
        spaces[oldId]? = some space ∧ CopiedSpace P oldChild child space copy := by
    obtain ⟨oldId, space, mapped, here⟩ := copied.only newId copy held
    obtain ⟨newId', oldChild, child, copy', mapped', there, same⟩ := place here
    rw [mapped] at mapped'
    cases mapped'
    rw [held] at there
    cases there
    exact ⟨oldId, space, oldChild, child, mapped, here, same⟩
  refine
    { «local» := rfl, injective := fresh.injective
      chain := fun oldId newId mapped => ?_
      readable := fun oldId readable => ?_
      readableFrom := fun newId readable => ?_
      rows := fun oldId newId mapped readable key => ?_
      unhinted := fun newId key row held => ?_ }
  · obtain ⟨child, given, rfl⟩ := copied.family.found oldId newId mapped
    exact (chainId_of_valid (copied.family.valid oldId child given)).1
  · obtain ⟨space, held, selected, _⟩ := mem_readableScopes_space.mp readable
    obtain ⟨newId, _, _, copy, mapped, there, same⟩ := place held
    exact ⟨newId, mapped, mem_readableScopes_space.mpr ⟨copy, there, same.selected.trans selected, same.present⟩⟩
  · obtain ⟨copy, held, selected, _⟩ := mem_readableScopes_space.mp readable
    obtain ⟨oldId, space, _, _, mapped, here, same⟩ := origin held
    exact ⟨oldId, mapped, mem_readableScopes_space.mpr
      ⟨space, here, same.selected.symm.trans selected, accepted.present oldId space here⟩⟩
  · obtain ⟨space, held, _⟩ := mem_readableScopes_space.mp readable
    obtain ⟨newId', _, _, copy, mapped', there, same⟩ := place held
    rw [mapped] at mapped'
    cases mapped'
    have before : SyncStateV3.spaceRecords { state with account := some account, spaces } oldId = space.records := by
      rw [SyncStateV3.spaceRecords, show spaces[oldId]? = some space from held]
      rfl
    have after : SyncStateV3.spaceRecords { state with account := some target, spaces := targets } newId =
        copy.records := by
      rw [SyncStateV3.spaceRecords, there]
      rfl
    rw [before, after]
    exact same.records key
  · cases there : targets[newId]? with
    | none =>
      rw [SyncStateV3.spaceSealed, there] at held
      simp at held
    | some copy =>
      rw [SyncStateV3.spaceSealed, there] at held
      obtain ⟨_, _, _, _, _, _, same⟩ := origin there
      obtain ⟨_, _, sealed⟩ := same.sealed.exists_left (BTreeMap.mem_values.mpr ⟨key, held⟩)
      exact sealed.unhinted

/-- A copied account row can be read when the source's could. -/
theorem CopiedRow.readable {row row' : LocalRecord} {key key' : String} (copied : CopiedRow mapping pending row row')
    (keyed : key' = recordKey row'.record.kind row'.record.id) (readable : AccountRowReadable P key row.record) :
    AccountRowReadable P key' row'.record := by
  obtain ⟨version, time, device⟩ := RecordRevision.mk.inj copied.renewed.revision
  refine ⟨⟨?_, keyed, ?_, ?_⟩, ?_, fun isSlot => ?_⟩
  · rw [copied.renewed.kind]
    exact readable.cached.public
  · rw [version]
    exact readable.cached.version
  · rw [device]
    exact readable.cached.device
  · rw [copied.renewed.kind]
    exact readable.kind
  · rw [copied.renewed.kind] at isSlot
    rw [copied.renewed.other (by simp [isSlot]) (by simp [isSlot]) (by simp [isSlot])]
    exact readable.keyslot isSlot

theorem Copied.readable {state : SyncStateV3}
    (copied : Copied P old new mapping pending account spaces target targets children)
    (moved : SpacesMoved mapping { state with account := some account, spaces }
      { state with account := some target, spaces := targets }) (newChain : isChainId new.chainId = true)
    (readable : Readable P { state with account := some account, spaces }) :
    Readable P { state with account := some target, spaces := targets } := by
  have header := readable.header
  refine
    { header := ⟨header.version, header.device, nofun, ?_, ?_⟩
      keys := readable.keys
      account := ?_
      hosts := ?_
      groups := ?_ }
  · rintro _ ⟨⟩
    rw [copied.rows.chain]
    exact newChain
  · intro newId copy held
    obtain ⟨oldId, _, mapped, _⟩ := copied.only newId copy held
    exact moved.chain oldId newId mapped
  · rintro _ ⟨⟩ key row held
    obtain ⟨source, member, same⟩ := copied.rows.records.exists_left (BTreeMap.mem_values.mpr ⟨key, held⟩)
    obtain ⟨oldKey, here⟩ := BTreeMap.mem_values.mp member
    exact same.readable (copied.rows.keyed.records key row held) (readable.account account rfl oldKey source here)
  · -- the rows of a copied space are those of its source under another scope
    intro scope open_ key row held
    cases scope with
    | «Local» => exact readable.hosts .Local List.mem_cons_self key row held
    | Space newId =>
      obtain ⟨oldId, mapped, here⟩ := moved.readableFrom newId open_
      have found := (moved.rows oldId newId mapped here key).symm.trans held
      obtain ⟨source, before, rfl⟩ := Option.map_eq_some_iff.mp found
      have good := readable.hosts (.Space oldId) here key source before
      exact ⟨good.cached, fun kind => decodeHost_isOk_scope (moved.chain oldId newId mapped) (good.decodes kind)⟩
  · intro scope open_ key row held
    cases scope with
    | «Local» => exact readable.groups .Local List.mem_cons_self key row held
    | Space newId =>
      obtain ⟨oldId, mapped, here⟩ := moved.readableFrom newId open_
      have found := (moved.rows oldId newId mapped here key).symm.trans held
      obtain ⟨source, before, rfl⟩ := Option.map_eq_some_iff.mp found
      have good := readable.groups (.Space oldId) here key source before
      exact ⟨good.cached, fun kind => decodeGroup_isOk_scope (moved.chain oldId newId mapped) (good.decodes kind)⟩

end Library

/-- A source that was read in full is copied row by row under the new keys, and the copy shows its library. -/
theorem rotation_copies_source (ideal : P.Ideal) {pull : (chainId token : String) → Rotation PullResponse}
    {source account : AccountState} {cached spaces : BTreeMap SpaceStateV3} {old new : ChainKeys}
    (sourceValid : validateAccountSection P source = .ok ())
    (cachedValid : ∀ entry ∈ cached.toList, validateSpaceSection P entry = .ok ())
    (read : sourceFull P pull source old cached = .ok (account, spaces)) {draws : Draws}
    {op op' : PendingAccountOperation} {plan : RotationPlan} (planned : op.rotation = some plan)
    (fromAccount : plan.sourceAccount = account) (fromSpaces : plan.sourceSpaces = spaces)
    (fresh : FreshMapping P old account spaces plan.spaceIds) (newChain : isChainId new.chainId = true)
    (prepared : prepareTargets P draws op old new = .ok op') :
    ∃ target targets children,
      op' = { op with preparedAccount := target, rotation := some { plan with targetSpaces := targets } } ∧
      Copied P old new plan.spaceIds (marker op plan .Publishing) account spaces target targets children ∧
      ∀ (state : SyncStateV3) (hosts : List HostView),
        listHosts P { state with account := some account, spaces } = .ok hosts →
          ∃ hosts', listHosts P { state with account := some target, spaces := targets } = .ok hosts' ∧
            KeepsHosts plan.spaceIds hosts hosts' := by
  subst fromAccount fromSpaces
  have accepted := sourceFull_accepted ideal sourceValid cachedValid read
  obtain ⟨target, targets, children, result, copied⟩ := prepareTargets_copied ideal planned accepted fresh prepared
  refine ⟨target, targets, children, result, copied, fun state hosts listed => ?_⟩
  have moved := copied.spacesMoved accepted fresh state
  have readable := readable_of_listed listed
  have after := copied.readable moved newChain readable
  obtain ⟨hosts', listed'⟩ := Result.isOk_iff.mp ((listHosts_isOk (P := P)).trans (snapshot_isOk_iff.mpr after))
  exact ⟨hosts', listed', moved.keepsHosts readable.header listed listed'⟩

/-! ## A hidden group

A space holds a host that takes its port from a group, and a newer revision of the group in a
format this version does not read.  The host cannot be resolved while that revision is known;
the copy does not carry it over. -/

namespace Sample

open Sync.Sample (token device hostId hostPayload accountMeta)

def oldAccount : String := "1111111111111111111111111111111111111111111111111111111111111111"
def newAccount : String := "2222222222222222222222222222222222222222222222222222222222222222"
def oldSpace : String := "aaaaaaaaaaaaaaaaaaaaaaaaaaaaaaaaaaaaaaaaaaaaaaaaaaaaaaaaaaaaaaaa"
def newSpace : String := "cccccccccccccccccccccccccccccccccccccccccccccccccccccccccccccccc"
def childKey : String := "AAAAAAAAAAAAAAAAAAAAAAAAAAAAAAAAAAAAAAAAAAA="

def old : ChainKeys := { chainId := oldAccount, authToken := token, encKey := "old" }
def new : ChainKeys := { chainId := newAccount, authToken := token, encKey := "new" }
def oldChild : ChainKeys := { chainId := oldSpace, authToken := token, encKey := childKey }

def row (kind : RecordKind) (id : String) (payload : Json) (version : Nat) : Record :=
  { kind, id, version, updatedAtMs := 10 * version, deviceId := device, deleted := false, payload }

def spaceRecord : Record :=
  row .Space oldSpace
    (SpacePayload.toJson { schema := 1, name := "s", slug := "s", createdAtMs := 1, previousId := none }) 1

def keyRecord : Record := row .SpaceKey oldSpace (credentials oldChild) 1

def groupId : String := "eeeeeeeeeeeeeeee"

def group : Record :=
  row .Group groupId
    (GroupPayload.toJson
      { schema := GROUP_SCHEMA, name := "g", parentId := none
        defaults := { GroupDefaults.empty with port := some 2222 } }) 1

def member : Record :=
  row .Host hostId
    (HostPayload.toJson
      { hostPayload with schema := GROUPED_HOST_SCHEMA, groupId := some groupId, inherit := [.Port] }) 1

/-- The newer revision. -/
def futureGroup : Record := row .Group groupId (.obj [("schema", .num 9)]) 2

def hashes : List (String × String) :=
  [("meta\naccount", "1"), ("space\n" ++ oldSpace, "2"), ("spacekey\n" ++ oldSpace, "3"), ("host\n" ++ hostId, "4"),
    ("group\n" ++ groupId, "5"), ("spacekey\n" ++ newSpace, "7")]

def texts : List (String × Json) :=
  [("1", accountMeta.toJson), ("2", spaceRecord.toJson), ("3", keyRecord.toJson), ("4", member.toJson),
    ("5", futureGroup.toJson)]

def primitives : Primitives := namedPrimitives hashes texts

theorem primitives_ideal : primitives.Ideal := by
  refine namedPrimitives_ideal ⟨?_, ?_, ?_, ?_, ?_⟩
  all_goals decide +kernel

def stored (keys : ChainKeys) (record : Record) (seq : Nat) : Envelope :=
  (encodeRecord primitives keys record 0 "n").envelope seq

def cached : BTreeMap SpaceStateV3 :=
  (∅ : BTreeMap SpaceStateV3).insert oldSpace
    { SpaceStateV3.default with
      selected := true
      records := (∅ : BTreeMap LocalRecord).insert (recordKey .Group groupId)
        { record := group, seq := 1, dirty := false } }

def pull (chain _token : String) : Rotation PullResponse :=
  if chain = oldAccount then
    .ok
      { records := [stored old accountMeta 1, stored old spaceRecord 2, stored old keyRecord 3]
        latestSeq := 3 }
  else .ok { records := [stored oldChild member 2, stored oldChild futureGroup 3], latestSeq := 3 }

def mapping : BTreeMap String := (∅ : BTreeMap String).insert oldSpace newSpace

def plan (source : AccountState × BTreeMap SpaceStateV3) : RotationPlan :=
  { step := .Prepared, sourceCodeAccount := "", sourceAccount := source.1, sourceSpaces := source.2
    spaceIds := mapping, targetSpaces := ∅, frozen := [], created := [], sourceDigest := "" }

def operation (source : AccountState × BTreeMap SpaceStateV3) : PendingAccountOperation :=
  { id := "op", deviceName := "d", kind := .RotateAccount, phase := .Prepared, migrationGate := none
    relayUrl := "", stagedCodeAccount := none, preparedAccount := AccountState.new newAccount
    spaceId := none, preparedSpace := none, rotation := some (plan source) }

def draws : Draws :=
  { keys := fun _ => { chainId := newSpace, authToken := token, encKey := childKey }
    nonce := fun _ _ => "n" }

def library (account : AccountState) (spaces : BTreeMap SpaceStateV3) : SyncStateV3 :=
  { Sync.Sample.library .default with version := GROUP_STATE_VERSION, account := some account, spaces }

/-- The ports that the hosts of a library are reached at. -/
def ports (account : AccountState) (spaces : BTreeMap SpaceStateV3) : Option (List UInt16) :=
  (listHosts primitives (library account spaces)).toOption.map fun hosts => hosts.map (·.effectivePayload.port)

def read : Rotation (AccountState × BTreeMap SpaceStateV3) :=
  sourceFull primitives pull (AccountState.new oldAccount) old cached

/-- No row of the source has the new space's id. -/
def unused (account : AccountState) : Bool :=
  (account.records.values.all fun row => row.record.id != newSpace) &&
    account.sealed.values.all fun row =>
      match openRow primitives old row.envelope with
      | .ok fields => decide (fields.lookup "id" ≠ some (.str newSpace))
      | .error _ => true

/-- The source as it is read: the newer revision of the group is kept sealed beside the old one. -/
def source : AccountState × BTreeMap SpaceStateV3 :=
  ({ AccountState.new oldAccount with
      cursorSeq := 3, baselineEstablished := true, remoteSchemaVersion := some 3
      records := ((∅ : BTreeMap LocalRecord).insert (recordKey .Meta accountMetaId)
        { record := accountMeta, seq := 1, dirty := false }).insert (recordKey .Space oldSpace)
        { record := spaceRecord, seq := 2, dirty := false }
      sealed := (∅ : BTreeMap SealedRecord).insert "spacekey:3"
        { envelope := stored old keyRecord 3, dirty := false, publicIdentity := none } },
    (∅ : BTreeMap SpaceStateV3).insert oldSpace
      { SpaceStateV3.default with
        selected := true, cursorSeq := 3, baselineEstablished := true
        records := ((∅ : BTreeMap LocalRecord).insert (recordKey .Group groupId)
          { record := group, seq := 1, dirty := false }).insert (recordKey .Host hostId)
          { record := member, seq := 2, dirty := false }
        sealed := (∅ : BTreeMap SealedRecord).insert "group:5"
          { envelope := stored oldChild futureGroup 3, dirty := false
            publicIdentity := some
              { id := groupId, version := 2, updatedAtMs := 20, deviceId := device, deleted := false } } })

/-- The run, with what is shown before and after. -/
theorem rotated : ∃ source ∈ read.toOption,
    ∃ result ∈ (prepareTargets primitives draws (operation source) old new).toOption,
      source.2.toList.map Prod.fst = [oldSpace] ∧ unused source.1 = true ∧
        ports source.1 source.2 = some [22] ∧
        (result.rotation.bind fun plan => ports result.preparedAccount plan.targetSpaces) = some [2222] := by
  have found : read.toOption = some source := by decide +kernel
  have spaces : source.2.toList.map Prod.fst = [oldSpace] ∧ unused source.1 = true := by decide +kernel
  have before : ports source.1 source.2 = some [22] := by decide +kernel
  have after : ∃ result ∈ (prepareTargets primitives draws (operation source) old new).toOption,
      (result.rotation.bind fun plan => ports result.preparedAccount plan.targetSpaces) = some [2222] := by
    decide +kernel
  obtain ⟨result, made, shown⟩ := after
  exact ⟨source, found, result, made, spaces.1, spaces.2, before, shown⟩

theorem fresh {source : AccountState × BTreeMap SpaceStateV3} (one : source.2.toList.map Prod.fst = [oldSpace])
    (free : unused source.1 = true) : FreshMapping primitives old source.1 source.2 mapping := by
  have only {oldId newId : String} (mapped : mapping[oldId]? = some newId) : oldId = oldSpace ∧ newId = newSpace := by
    rw [mapping, BTreeMap.get?_insert] at mapped
    split at mapped
    · next same => exact ⟨same.symm, (Option.some.inj mapped).symm⟩
    · simp at mapped
  simp only [unused, Bool.and_eq_true, List.all_eq_true, bne_iff_ne, ne_eq] at free
  refine ⟨fun id => ?_, fun a b newId first second => ?_, fun oldId newId mapped row member => ?_,
    fun oldId newId mapped row member fields opened => ?_⟩
  · have listed : id ∈ source.2.toList.map Prod.fst ↔ source.2.contains id = true := by
      rw [BTreeMap.contains_eq, Option.isSome_iff_exists]
      simp only [List.mem_map, Prod.exists, exists_and_right, exists_eq_right, BTreeMap.mem_toList]
    rw [one, List.mem_singleton] at listed
    rw [Bool.eq_iff_iff, ← listed, mapping, BTreeMap.contains_eq, BTreeMap.get?_insert]
    split
    · next same => simp [same]
    · next other => simp [Ne.symm other]
  · rw [(only first).1, (only second).1]
  · rw [(only mapped).2]
    exact free.1 row member
  · have checked := free.2 row member
    rw [opened] at checked
    rw [(only mapped).2]
    simpa using checked

end Sample

theorem rotation_copies_sample :
    ∃ source result target targets children hosts hosts',
      Sample.read = .ok source ∧
      prepareTargets Sample.primitives Sample.draws (Sample.operation source) Sample.old Sample.new = .ok result ∧
      Copied Sample.primitives Sample.old Sample.new Sample.mapping
        (marker (Sample.operation source) (Sample.plan source) .Publishing) source.1 source.2 target targets children ∧
      listHosts Sample.primitives (Sample.library source.1 source.2) = .ok hosts ∧ hosts ≠ [] ∧
      listHosts Sample.primitives (Sample.library target targets) = .ok hosts' ∧
      KeepsHosts Sample.mapping hosts hosts' := by
  obtain ⟨source, found, result, made, one, free, before, _⟩ := Sample.rotated
  have read := Result.mem_toOption.mp found
  have prepared := Result.mem_toOption.mp made
  obtain ⟨hosts, shown, ports⟩ := Option.map_eq_some_iff.mp before
  have listed := Result.mem_toOption.mp shown
  have some_ : hosts ≠ [] := by
    rintro rfl
    cases ports
  obtain ⟨target, targets, children, _, copied, keeps⟩ :=
    rotation_copies_source Sample.primitives_ideal (by decide +kernel) (by decide +kernel) read
      (show (Sample.operation source).rotation = some (Sample.plan source) from rfl) rfl rfl
      (Sample.fresh one free) (by decide +kernel) prepared
  obtain ⟨hosts', listed', kept⟩ := keeps (Sample.library source.1 source.2) hosts listed
  exact ⟨source, result, target, targets, children, hosts, hosts', read, prepared, copied, listed, some_, listed', kept⟩

/-- The host that could not be resolved is reached at its group's port afterwards. -/
theorem rotation_resolves_hidden_group :
    Sample.primitives.Ideal ∧ ∃ source result plan,
      Sample.read = .ok source ∧ FreshMapping Sample.primitives Sample.old source.1 source.2 Sample.mapping ∧
      prepareTargets Sample.primitives Sample.draws (Sample.operation source) Sample.old Sample.new = .ok result ∧
      result.rotation = some plan ∧ Sample.ports source.1 source.2 = some [22] ∧
      Sample.ports result.preparedAccount plan.targetSpaces = some [2222] := by
  obtain ⟨source, found, result, made, one, free, before, after⟩ := Sample.rotated
  obtain ⟨plan, planned, after⟩ := Option.bind_eq_some_iff.mp after
  exact ⟨Sample.primitives_ideal, source, result, plan, Result.mem_toOption.mp found, Sample.fresh one free,
    Result.mem_toOption.mp made, planned, before, after⟩

end Sshelter.Sync.RecordRotation
