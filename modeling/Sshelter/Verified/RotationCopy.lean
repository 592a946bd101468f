import Sshelter.Verified.RotationRows

/-! # The copied account and its spaces

What `prepareTargets` leaves: every row of the source once, under its new key, and the spaces'
new keys in the copied account where `spaceKeys` finds them.
-/

namespace Sshelter.Sync.RecordRotation

variable {P : Primitives} {draws : Draws} {old new : ChainKeys} {account : AccountState}
  {spaces : BTreeMap SpaceStateV3} {mapping : BTreeMap String} {children : BTreeMap ChainKeys}

/-! ## The account -/

/-- The account's rows, each once, under the new keys. -/
structure CopiedAccount (P : Primitives) (old new : ChainKeys) (mapping : BTreeMap String)
    (children : BTreeMap ChainKeys) (pending : MigrationGate) (account target : AccountState) : Prop where
  chain : target.chainId = new.chainId
  records : OneForOne (CopiedRow mapping pending) account.records.values target.records.values
  sealed : OneForOne (CopiedSealed P old new (RenewedFields children)) account.sealed.values target.sealed.values
  keyed : KeyedRows target.records target.sealed

/-- A loop that ran through ran on every item. -/
theorem fill_ran {α β : Type} {items : List α} {entry : α → Rotation (String × β)} {m : BTreeMap β}
    (filled : fill items entry = .ok m) {item : α} (member : item ∈ items) : ∃ result, entry item = .ok result := by
  obtain ⟨entries, ran, _⟩ := Result.bind_eq_ok.mp filled
  exact Result.isOk_iff.mp (Result.mapM_isOk.mp (Result.isOk_iff.mpr ⟨entries, ran⟩) item member)

theorem mapped_of_live {schema : Nat} {pending : MigrationGate} {row : LocalRecord} {entry : String × LocalRecord}
    (made : targetRow mapping schema pending row = .ok entry) (kind : row.record.kind = .Space)
    (live : row.record.deleted = false) : ∃ newId, mapping[row.record.id]? = some newId := by
  obtain ⟨record, ran, _⟩ := Result.bind_eq_ok.mp made
  rw [targetRecord, if_neg (by simp [kind]), if_pos ⟨kind, live⟩] at ran
  obtain ⟨newId, found, _⟩ := Result.bind_eq_ok.mp ran
  unfold orMissing at found
  split at found
  · cases found
    exact ⟨_, ‹_›⟩
  · cases found

theorem records_oneForOne (fresh : FreshMapping P old account spaces mapping)
    (keyed : KeyedRows account.records account.sealed) {schema : Nat} {pending : MigrationGate}
    (known : ∀ row ∈ account.records.values, row.record.kind = .Meta → row.record.id = accountMetaId →
      KnownMarker schema row.record) {records : BTreeMap LocalRecord}
    (filled : fill account.records.values (targetRow mapping schema pending) = .ok records) :
    OneForOne (fun (row : LocalRecord) (entry : String × LocalRecord) =>
      entry.1 = recordKey entry.2.record.kind entry.2.record.id ∧ CopiedRow mapping pending row entry.2)
      account.records.values records.toList := by
  refine (fill_oneForOne filled ?_).imp fun row member entry made => targetRow_copied (known row member) made
  have mapped : ∀ row ∈ account.records.values, row.record.kind = .Space → row.record.deleted = false →
      ∃ newId, mapping[row.record.id]? = some newId := by
    intro row member kind live
    obtain ⟨entry, made⟩ := fill_ran filled member
    exact mapped_of_live made kind live
  have apart : account.records.values.Pairwise fun a b =>
      recordKey a.record.kind a.record.id ≠ recordKey b.record.kind b.record.id := by
    rw [BTreeMap.values, List.pairwise_map]
    refine List.Pairwise.imp_of_mem ?_ (List.pairwise_map.mp (BTreeMap.toList_keys_nodup account.records))
    rintro ⟨key, row⟩ ⟨key', row'⟩ member member' distinct same
    rw [← keyed.records _ _ (BTreeMap.mem_toList.mp member),
      ← keyed.records _ _ (BTreeMap.mem_toList.mp member')] at same
    exact distinct same
  refine List.Pairwise.imp_of_mem ?_ apart
  intro row other here there distinct entry entry' made made' same
  obtain ⟨key, copied⟩ := targetRow_copied (known row here) made
  obtain ⟨key', copied'⟩ := targetRow_copied (known other there) made'
  rw [key, key'] at same
  obtain ⟨kinds, ids⟩ := recordKey_injective same
  rw [copied.renewed.kind, copied'.renewed.kind] at kinds
  rw [copied.renewed.id, copied'.renewed.id] at ids
  exact distinct (by rw [kinds, renewedId_injective fresh here there mapped ids])

/-- The filled maps are the account's copy. -/
theorem copiedAccount (ideal : P.Ideal) (family : Children mapping children)
    (fresh : FreshMapping P old account spaces mapping) (keyed : KeyedRows account.records account.sealed)
    {schema : Nat} {pending : MigrationGate}
    (known : ∀ row ∈ account.records.values, row.record.kind = .Meta → row.record.id = accountMetaId →
      KnownMarker schema row.record) {target : AccountState} (chain : target.chainId = new.chainId)
    (records : fill account.records.values (targetRow mapping schema pending) = .ok target.records)
    (sealed : fill account.sealed.toList (targetSealed P draws old new children) = .ok target.sealed) :
    CopiedAccount P old new mapping children pending account target := by
  have typed := records_oneForOne fresh keyed known records
  have retained := sealed_oneForOne ideal family fresh keyed sealed
  refine ⟨chain, ?_, ?_, ⟨fun key row held => ?_, fun key row held => ?_⟩⟩
  · have copies := typed.map id Prod.snd (S := CopiedRow mapping pending) fun row _ entry copied => copied.2
    rwa [List.map_id] at copies
  · exact retained.map Prod.snd Prod.snd fun item _ entry ⟨_, _, renewed⟩ => renewed.copied
  · obtain ⟨_, _, named, _⟩ := typed.exists_left (BTreeMap.mem_toList.mpr held)
    exact named
  · obtain ⟨_, _, _, _, renewed⟩ := retained.exists_left (BTreeMap.mem_toList.mpr held)
    exact renewed.wire

/-! ## A space -/

/-- The rows of a space: the typed ones as they are, the retained ones under the new keys. -/
structure CopiedSpace (P : Primitives) (old new : ChainKeys) (space target : SpaceStateV3) : Prop where
  records : ∀ key : String,
    target.records[key]? = (space.records[key]?).map fun row => { row with seq := 0, dirty := true }
  sealed : OneForOne (CopiedSealed P old new (· = ·)) space.sealed.values target.sealed.values
  wired : ∀ (key : String) row, target.sealed[key]? = some row → key = row.envelope.wireKey
  selected : target.selected = space.selected
  present : target.missing = false
  unread : target.cursorSeq = 0 ∧ target.baselineEstablished = false

/-- Without spaces nothing is renewed. -/
theorem targetSpaceSealed_eq (oldChild child : ChainKeys) (entry : String × SealedRecord) :
    targetSpaceSealed P draws oldChild child entry = targetSealed P draws oldChild child ∅ entry := by
  simp [targetSpaceSealed, targetSealed, renewal]

theorem RenewedFields.eq_of_empty {fields fields' : List (String × Json)} (renewed : RenewedFields ∅ fields fields') :
    fields = fields' := by
  cases renewed with
  | spaceKey _ _ _ keys => simp at keys
  | other => rfl

theorem spaceSealed_oneForOne (ideal : P.Ideal) {oldChild child : ChainKeys} {sealed target : BTreeMap SealedRecord}
    (wired : ∀ (key : String) row, sealed[key]? = some row → key = row.envelope.wireKey)
    (filled : fill sealed.toList (targetSpaceSealed P draws oldChild child) = .ok target) :
    OneForOne (fun (item entry : String × SealedRecord) =>
      ∃ oldId newId, RenewedAs P oldChild child ∅ item.2 oldId newId entry) sealed.toList target.toList := by
  have family : Children (∅ : BTreeMap String) ∅ := by
    refine ⟨?_, ?_, ?_⟩ <;> simp
  have fresh : FreshMapping P oldChild { AccountState.new "" with sealed } ∅ ∅ := by
    refine ⟨?_, ?_, ?_, ?_⟩ <;> simp
  have keyed : KeyedRows (∅ : BTreeMap LocalRecord) sealed := ⟨by simp, wired⟩
  have same : targetSpaceSealed P draws oldChild child = targetSealed P draws oldChild child ∅ :=
    funext fun entry => targetSpaceSealed_eq oldChild child entry
  rw [same] at filled
  have asAccount : KeyedRows ({ AccountState.new "" with sealed } : AccountState).records sealed := keyed
  exact sealed_oneForOne ideal family fresh asAccount filled

theorem targetSpace_copied (ideal : P.Ideal) {oldId newId : String} {space target : SpaceStateV3}
    (wired : ∀ (key : String) row, space.sealed[key]? = some row → key = row.envelope.wireKey)
    (made : targetSpace P draws account old children (oldId, space) = .ok (newId, target)) :
    ∃ oldChild child, spaceKeys P old account oldId = .ok (some oldChild) ∧ children[oldId]? = some child ∧
      child.chainId = newId ∧ CopiedSpace P oldChild child space target := by
  obtain ⟨oldKeys, credentials, made⟩ := Result.bind_eq_ok.mp made
  obtain ⟨oldChild, present, made⟩ := Result.bind_eq_ok.mp made
  obtain ⟨child, found, made⟩ := Result.bind_eq_ok.mp made
  obtain ⟨sealed, filled, made⟩ := Result.bind_eq_ok.mp made
  cases made
  have known : oldKeys = some oldChild := by
    unfold orMissing at present
    split at present
    · cases present
      rfl
    · cases present
  have given : children[oldId]? = some child := by
    unfold unwrap at found
    split at found
    · cases found
      assumption
    · cases found
  have retained := spaceSealed_oneForOne ideal wired filled
  refine ⟨oldChild, child, known ▸ credentials, given, rfl, ?_⟩
  refine
    { records := fun key => by simp [Std.ExtTreeMap.getElem?_map]
      sealed := ?_
      wired := fun key row held => ?_
      selected := rfl, present := rfl, unread := ⟨rfl, rfl⟩ }
  · refine retained.map Prod.snd Prod.snd fun item _ entry ⟨_, _, renewed⟩ => ?_
    obtain ⟨fields, fields', opened, opens, same⟩ := renewed.copied.opens
    exact ⟨⟨fields, fields', opened, opens, same.eq_of_empty⟩, renewed.copied.kind, renewed.copied.waiting,
      renewed.copied.unhinted⟩
  · obtain ⟨_, _, _, _, renewed⟩ := retained.exists_left (BTreeMap.mem_toList.mpr held)
    exact renewed.wire

/-! ## The keys of the spaces -/

/-- What `space_keys` finds: a live space that nothing hides, and its key. -/
structure SpaceCredentials (P : Primitives) (keys : ChainKeys) (account : AccountState) (id : String)
    (child : ChainKeys) : Prop where
  chain : account.chainId = keys.chainId
  live : ∃ row, account.records[recordKey .Space id]? = some row ∧ row.record.deleted = false ∧
    validPublic P keys row.record true = true
  unhidden : account.sealed[sealedKey "space" (idHash P keys "space" id)]? = none
  secret : ∃ row opened, account.sealed[sealedKey "spacekey" (idHash P keys "spacekey" id)]? = some row ∧
    openRecord P keys row.envelope = .ok opened ∧ opened.kind = .SpaceKey ∧ opened.id = id ∧
    opened.deleted = false ∧ validSecret opened = true ∧
    (((opened.payload.get "auth_token").bind Json.asStr).bind fun token =>
      ((opened.payload.get "enc_key").bind Json.asStr).bind (ChainKeys.fromParts id token)) = some child

theorem liveMetadata_eq_true {keys : ChainKeys} {kind : RecordKind} {id : String} :
    liveMetadata P keys account kind id = .ok true ↔ account.chainId = keys.chainId ∧
      (∃ row, account.records[recordKey kind id]? = some row ∧ row.record.deleted = false ∧
        validPublic P keys row.record true = true) ∧
      account.sealed[sealedKey kind.asStr (idHash P keys kind.asStr id)]? = none := by
  rw [liveMetadata, Result.refuse_bind_eq_ok, bne_eq_false_iff_eq]
  apply and_congr_right
  intro _
  cases account.records[recordKey kind id]? with
  | none => simp
  | some row =>
    cases gone : row.record.deleted with
    | true => simp [gone]
    | false =>
      simp only [gone, Bool.false_eq_true, if_false]
      rw [Result.refuse_bind_eq_ok, BTreeMap.contains_eq, Bool.or_eq_false_iff, Bool.not_eq_false',
        Option.isSome_eq_false_iff, Option.isNone_iff_eq_none]
      constructor
      · rintro ⟨⟨valid, unhidden⟩, _⟩
        exact ⟨⟨row, rfl, gone, valid⟩, unhidden⟩
      · rintro ⟨⟨_, found, _, valid⟩, unhidden⟩
        cases found
        exact ⟨⟨valid, unhidden⟩, rfl⟩

theorem openedSecret_eq_some {keys : ChainKeys} {kind : RecordKind} {id : String} {opened : Record} :
    openedSecret P keys account kind id = .ok (some opened) ↔ account.chainId = keys.chainId ∧
      ∃ row, account.sealed[sealedKey kind.asStr (idHash P keys kind.asStr id)]? = some row ∧
        openRecord P keys row.envelope = .ok opened ∧ opened.kind = kind ∧ opened.id = id ∧
        opened.deleted = false ∧ validSecret opened = true := by
  rw [openedSecret, Result.refuse_bind_eq_ok, bne_eq_false_iff_eq]
  apply and_congr_right
  intro _
  cases account.sealed[sealedKey kind.asStr (idHash P keys kind.asStr id)]? with
  | none => simp
  | some row =>
    simp only [Option.some.injEq, exists_eq_left']
    cases openRecord P keys row.envelope with
    | error code => simp
    | ok found =>
      simp only [Result.refuse_bind_eq_ok, Bool.or_eq_false_iff, bne_eq_false_iff_eq, Bool.not_eq_false',
        Except.ok.injEq]
      cases gone : found.deleted with
      | true =>
        simp only [if_true, pure, Except.pure, Except.ok.injEq, reduceCtorEq, and_false, false_iff]
        rintro ⟨rfl, _, _, live, _⟩
        rw [gone] at live
        cases live
      | false =>
        simp only [Bool.false_eq_true, if_false, pure, Except.pure, Except.ok.injEq, Option.some.injEq]
        constructor
        · rintro ⟨⟨⟨kind, id⟩, valid⟩, rfl⟩
          exact ⟨rfl, kind, id, gone, valid⟩
        · rintro ⟨rfl, kind, id, _, valid⟩
          exact ⟨⟨⟨kind, id⟩, valid⟩, rfl⟩

theorem spaceKeys_eq_some {keys : ChainKeys} {id : String} {child : ChainKeys} :
    spaceKeys P keys account id = .ok (some child) ↔ SpaceCredentials P keys account id child := by
  rw [spaceKeys, Result.bind_eq_ok]
  constructor
  · rintro ⟨live, public_, found⟩
    cases live with
    | false => simp at found
    | true =>
      simp only [Bool.not_true, Bool.false_eq_true, if_false] at found
      obtain ⟨secret, opens, found⟩ := Result.bind_eq_ok.mp found
      obtain ⟨chain, live, unhidden⟩ := liveMetadata_eq_true.mp public_
      cases secret with
      | none => simp at found
      | some opened =>
        obtain ⟨_, row, held, opens, kind, id_, live', valid⟩ := openedSecret_eq_some.mp opens
        simp only at found
        split at found
        · cases found
        · rename_i parts
          cases found
          exact ⟨chain, live, unhidden, row, opened, held, opens, kind, id_, live', valid, parts⟩
  · rintro ⟨chain, live, unhidden, row, opened, held, opens, kind, id_, live', valid, parts⟩
    have secret : openedSecret P keys account .SpaceKey id = .ok (some opened) :=
      openedSecret_eq_some.mpr ⟨chain, row, held, opens, kind, id_, live', valid⟩
    refine ⟨true, liveMetadata_eq_true.mpr ⟨chain, live, unhidden⟩, ?_⟩
    simp only [Bool.not_true, Bool.false_eq_true, if_false]
    rw [secret, Result.ok_bind]
    simp only [parts]

/-- Naming the former id keeps a space's record readable. -/
theorem SpacePayload.ofJson_set_previous {fields : List (String × Json)} {payload : SpacePayload} (oldId : String)
    (read : SpacePayload.ofJson (.obj fields) = some payload) :
    SpacePayload.ofJson ((Json.obj fields).set "previous_id" (.str oldId)) =
      some { payload with previousId := some oldId } := by
  simp only [SpacePayload.ofJson, Json.record, Json.set, Json.field, Bool.false_and, Bool.false_eq_true, if_false,
    Option.bind_eq_bind, Option.bind_some, Json.lookup_setField, Option.pure_def] at read ⊢
  simp only [show ("schema" = "previous_id") = False by decide, show ("name" = "previous_id") = False by decide,
    show ("slug" = "previous_id") = False by decide, show ("created_at_ms" = "previous_id") = False by decide,
    if_false]
  obtain ⟨schema, hasSchema, read⟩ := Option.bind_eq_some_iff.mp read
  obtain ⟨name, hasName, read⟩ := Option.bind_eq_some_iff.mp read
  obtain ⟨slug, hasSlug, read⟩ := Option.bind_eq_some_iff.mp read
  obtain ⟨createdAtMs, hasTime, read⟩ := Option.bind_eq_some_iff.mp read
  obtain ⟨previousId, _, read⟩ := Option.bind_eq_some_iff.mp read
  cases read
  refine Option.bind_eq_some_iff.mpr ⟨schema, hasSchema, Option.bind_eq_some_iff.mpr ⟨name, hasName, ?_⟩⟩
  refine Option.bind_eq_some_iff.mpr ⟨slug, hasSlug, Option.bind_eq_some_iff.mpr ⟨createdAtMs, hasTime, ?_⟩⟩
  simp [Json.fieldOr, Json.optionOf, Json.asStr]

theorem validPublic_renewed {mapping : BTreeMap String} {pending : MigrationGate} {r r' : Record}
    (renewed : Renewed mapping pending r r') (kind : r.kind = .Space) (live : r.deleted = false)
    (valid : validPublic P old r true = true) (chain : isChainId r'.id = true)
    (object : ∃ fields, r.payload = .obj fields) : validPublic P new r' true = true := by
  obtain ⟨fields, object⟩ := object
  simp only [validPublic, if_true, kind, live, Bool.false_and, Bool.false_or, Bool.and_eq_true] at valid
  obtain ⟨oldChain, payload⟩ := valid
  simp only [validPublic, if_true, renewed.kind, kind, renewed.deleted, live, Bool.false_and, Bool.false_or, chain,
    Bool.true_and]
  unfold validSpacePayload at payload ⊢
  rw [object] at payload
  obtain ⟨space, read, good⟩ := (Option.any_eq_true _ _).mp payload
  rw [renewed.space kind live, object, SpacePayload.ofJson_set_previous r.id read]
  simp only [Bool.and_eq_true, Option.any_some, Option.all_some] at good ⊢
  exact ⟨good.1, oldChain⟩

/-- A row of a known kind that rotation opens is the record that merging opens. -/
theorem openRecord_of_openRow {keys : ChainKeys} {envelope : Envelope} {fields : List (String × Json)}
    {kind : RecordKind} {id : String} {deleted : Bool} (opened : openRow P keys envelope = .ok fields)
    (header : Header fields kind.asStr deleted id) : ∃ record, openRecord P keys envelope = .ok record ∧
      record.kind = kind ∧ record.id = id ∧ record.deleted = deleted ∧
      fields.lookup "payload" = some record.payload := by
  obtain ⟨text, id', header', hash⟩ := openRow_eq_ok.mp opened
  have sameKind : envelope.kind = kind.asStr := by simpa using header'.kind.symm.trans header.kind
  have sameId : id' = id := by simpa using header'.id.symm.trans header.id
  have sameFlag : envelope.deleted = deleted := by simpa using header'.deleted.symm.trans header.deleted
  subst sameId
  obtain ⟨version, hasVersion, _⟩ := (Option.any_eq_true _ _).mp header.version
  obtain ⟨time, hasTime⟩ := Option.isSome_iff_exists.mp header.time
  obtain ⟨device, hasDevice, _⟩ := (Option.any_eq_true _ _).mp header.device
  have complete := header.complete
  simp only [completeHeader, Bool.and_eq_true, List.all_eq_true] at complete
  obtain ⟨payload, hasPayload⟩ := Option.isSome_iff_exists.mp (complete.1 "payload" (by decide))
  have reads : readHeader fields =
      some { kind, id := id', version, updatedAtMs := time, deviceId := device, deleted, payload } := by
    simp [readHeader, header.kind, header.id, header.deleted, hasVersion, hasTime, hasDevice, hasPayload,
      Json.asStr, Json.asBool]
  refine ⟨{ kind, id := id', version, updatedAtMs := time, deviceId := device, deleted, payload }, ?_, rfl, rfl,
    rfl, hasPayload⟩
  have known : (fields.any fun field => !headerFields.contains field.1) = false := by
    rw [List.any_eq_false]
    intro field member
    simpa using complete.2 field member
  rw [openRecord, sameKind, RecordKind.parse_asStr]
  simp only [openJson]
  rw [← sameKind, text]
  simp only [known, Bool.false_eq_true, if_false, reads]
  rw [if_neg]
  simp only [bne_self_eq_false, sameFlag, Bool.false_or, hash, Bool.false_eq_true, not_false_eq_true]

/-- A space that was copied has an object for a payload. -/
theorem object_of_live {schema : Nat} {pending : MigrationGate} {row : LocalRecord} {entry : String × LocalRecord}
    (made : targetRow mapping schema pending row = .ok entry) (kind : row.record.kind = .Space)
    (live : row.record.deleted = false) (valid : validPublic P old row.record true = true) :
    ∃ fields, row.record.payload = .obj fields := by
  obtain ⟨record, ran, _⟩ := Result.bind_eq_ok.mp made
  rw [targetRecord, if_neg (by simp [kind]), if_pos ⟨kind, live⟩] at ran
  obtain ⟨newId, _, ran⟩ := Result.bind_eq_ok.mp ran
  obtain ⟨payload, assigned, _⟩ := Result.bind_eq_ok.mp ran
  simp only [validPublic, if_true, kind, live, Bool.false_and, Bool.false_or, Bool.and_eq_true,
    validSpacePayload] at valid
  obtain ⟨space, read, _⟩ := (Option.any_eq_true _ _).mp valid.2
  unfold assign at assigned
  split at assigned
  · exact ⟨_, ‹_›⟩
  · rename_i null
    rw [null] at read
    cases read
  · cases assigned

/-- The copied account holds the new keys of every space of the source. -/
theorem spaceKeys_renewed (ideal : P.Ideal) (family : Children mapping children)
    (fresh : FreshMapping P old account spaces mapping) (keyed : KeyedRows account.records account.sealed)
    {schema : Nat} {pending : MigrationGate}
    (known : ∀ row ∈ account.records.values, row.record.kind = .Meta → row.record.id = accountMetaId →
      KnownMarker schema row.record) {target : AccountState} (chain : target.chainId = new.chainId)
    (records : fill account.records.values (targetRow mapping schema pending) = .ok target.records)
    (sealed : fill account.sealed.toList (targetSealed P draws old new children) = .ok target.sealed)
    {oldId : String} {oldChild child : ChainKeys} (source : spaceKeys P old account oldId = .ok (some oldChild))
    (given : children[oldId]? = some child) : spaceKeys P new target child.chainId = .ok (some child) := by
  have typed := records_oneForOne fresh keyed known records
  have retained := sealed_oneForOne ideal family fresh keyed sealed
  have mapped := family.mapped oldId child given
  obtain ⟨chainId, tokenValid, keyValid⟩ := chainId_of_valid (family.valid oldId child given)
  have credentials := spaceKeys_eq_some.mp source
  refine spaceKeys_eq_some.mpr ⟨chain, ?_, ?_, ?_⟩
  · -- the space row is copied under the new chain id
    obtain ⟨row, held, live, valid⟩ := credentials.live
    obtain ⟨kind, id⟩ := recordKey_injective (keyed.records _ _ held)
    have member : row ∈ account.records.values := BTreeMap.mem_values.mpr ⟨_, held⟩
    obtain ⟨⟨key, copy⟩, inTarget, named, copied⟩ := typed.exists_right member
    have newId : copy.record.id = child.chainId := by
      rw [copied.renewed.id, renewedId, if_pos ⟨kind.symm, live⟩, ← id, mapped, Option.getD_some]
    obtain ⟨_, made⟩ := fill_ran records member
    refine ⟨copy, ?_, copied.renewed.deleted.trans live, ?_⟩
    · have here := BTreeMap.mem_toList.mp inTarget
      rwa [show key = recordKey .Space child.chainId by
        rw [show key = _ from named, copied.renewed.kind, ← kind, newId]] at here
    · exact validPublic_renewed copied.renewed kind.symm live valid (newId ▸ chainId)
        (object_of_live made kind.symm live valid)
  · -- a row that hid the new space would have had its id in the source
    by_contra hidden
    obtain ⟨row, held⟩ := Option.ne_none_iff_exists'.mp hidden
    obtain ⟨⟨_, item⟩, member, otherId, newId, renewed⟩ := retained.exists_left (BTreeMap.mem_toList.mpr held)
    obtain ⟨kind, rfl⟩ := sealedKey_idHash_injective ideal renewed.key
    have same := renewed.renewed
    rw [← kind, renewal, if_neg (by simp)] at same
    obtain ⟨fields, opened, named⟩ := renewed.named
    rw [show otherId = child.chainId from same.symm] at named
    exact fresh.sealed _ _ mapped item (BTreeMap.mem_values.mpr ⟨_, BTreeMap.mem_toList.mp member⟩) fields opened
      named
  · -- the secret opens under the new keys and holds the child's new credentials
    obtain ⟨row, opened, held, opens, kind, id, live, _⟩ := credentials.secret
    obtain ⟨⟨key, copy⟩, inTarget, otherId, newId, renewed⟩ := retained.exists_right (BTreeMap.mem_toList.mpr held)
    obtain ⟨wireKind, hash, flag⟩ := openRecord_ok opens
    rw [kind] at wireKind hash
    rw [id] at hash
    have sameId : otherId = oldId := by
      have hashes := renewed.source
      rw [hash, wireKind] at hashes
      exact (idHash_kind_injective ideal hashes).2.symm
    subst sameId
    have renews : renewal children row.envelope.kind row.envelope.deleted otherId = some child := by
      rw [renewal, wireKind, flag, live, if_pos ⟨rfl, rfl⟩, given]
    have same := renewed.renewed
    rw [renews] at same
    obtain rfl : newId = child.chainId := same
    obtain ⟨fields, fields', opensOld, opensNew, renewedFields⟩ := renewed.copied.opens
    obtain ⟨id', header, hash'⟩ := (openRow_eq_ok.mp opensOld).2
    have sameId : id' = otherId := by
      rw [hash, wireKind] at hash'
      have hashes : idHash P old RecordKind.SpaceKey.asStr id' = idHash P old RecordKind.SpaceKey.asStr otherId := hash'
      exact (idHash_kind_injective ideal hashes).2
    subst sameId
    have isKey : fields.lookup "kind" = some (.str "spacekey") := by
      rw [header.kind, wireKind]
      rfl
    have isLive : fields.lookup "deleted" = some (.bool false) := by rw [header.deleted, flag, live]
    have written : fields' = renewKey child fields := by
      cases renewedFields with
      | spaceKey _ _ named keys =>
        have sameId := header.id.symm.trans named
        cases sameId
        rw [given] at keys
        cases keys
        rfl
      | other plain =>
        have none_ := plain id' isKey isLive header.id
        rw [given] at none_
        cases none_
    subst written
    rw [wireKind, flag, live] at header
    have renewedHeader : Header (renewKey child fields) RecordKind.SpaceKey.asStr false child.chainId :=
      header.renewKey (ne_empty_of_chainId chainId)
    obtain ⟨record, opensRecord, sameKind, sameId, sameFlag, payload⟩ := openRecord_of_openRow
      opensNew renewedHeader
    have contents : record.payload = RecordRotation.credentials child := by
      simpa [renewKey, Json.lookup_setField] using payload.symm
    refine ⟨copy, record, ?_, opensRecord, sameKind, sameId, sameFlag, ?_, ?_⟩
    · have here := BTreeMap.mem_toList.mp inTarget
      rwa [show key = _ from renewed.key, wireKind] at here
    · simp [validSecret, sameKind, sameId, sameFlag, contents, RecordRotation.credentials, Json.get, List.lookup,
        Json.asU64, Json.asStr, chainId, tokenValid, keyValid]
    · simp only [contents, RecordRotation.credentials, Json.get, List.lookup]
      simp [Json.asStr, family.valid id' child given]

end Sshelter.Sync.RecordRotation
