import Sshelter.Verified.RotationSource
import Sshelter.Verified.Pins

/-! # What keeps a state valid

Replacing a section by a merged one and raising the version keep what `validate_state` asks.
-/

namespace Sshelter.Sync

variable {P : Primitives} {keys : ChainKeys} {state : SyncStateV3}

/-! ## Merged rows -/

/-- The ordering evidence of the retained rows is evidence for them. -/
def HintsValid (account : Bool) (sealed : BTreeMap SealedRecord) : Prop :=
  ∀ (key : String) row, sealed[key]? = some row → ∀ hint, row.publicIdentity = some hint →
    hint.isValidFor row.envelope = true ∧ hintedKind account row.envelope.kind = true

theorem verifiedPublicIdentity_valid {envelope : Envelope} {account : Bool} {hint : VerifiedPublicIdentity}
    (verified : verifiedPublicIdentity P keys envelope account = some hint) :
    hint.isValidFor envelope = true ∧ hintedKind account envelope.kind = true := by
  simp only [verifiedPublicIdentity, Option.bind_eq_bind, Option.bind_eq_some_iff, Option.guard_eq_some',
    exists_const, Bool.and_eq_true, beq_iff_eq, bne_iff_ne] at verified
  obtain ⟨hinted, _, _, _, _, id, _, _, _, _, actor, _, version, _, deleted, _, ⟨⟨⟨known, author⟩, numbered⟩, same⟩,
    _, _, _, result⟩ := verified
  cases result
  refine ⟨?_, hinted⟩
  have named : VerifiedPublicIdentity.isPublicId envelope.kind id = true := by
    unfold hintedKind at hinted
    unfold VerifiedPublicIdentity.isPublicId
    cases account <;> simp at hinted known <;> obtain kind | kind := hinted <;> simp [kind] at known ⊢ <;>
      exact known
  simp [VerifiedPublicIdentity.isValidFor, named, author, same, Nat.pos_of_ne_zero numbered]

theorem retainOpaque_identity {sealed sealed' : BTreeMap SealedRecord} {envelope : Envelope} {account : Bool}
    (retained : retainOpaque P keys sealed envelope account = some sealed') :
    ∃ row, sealed' = sealed.insert envelope.wireKey row ∧
      row.publicIdentity = verifiedPublicIdentity P keys row.envelope account := by
  unfold retainOpaque at retained
  rw [show sealedKey envelope.kind envelope.idHash = envelope.wireKey from rfl] at retained
  dsimp only at retained
  split at retained
  · cases retained
    exact ⟨_, rfl, rfl⟩
  · split at retained
    · cases retained
    · split at retained
      · cases retained
        exact ⟨_, rfl, rfl⟩
      · split at retained
        all_goals
          cases retained
          exact ⟨_, rfl, rfl⟩

theorem HintsValid.insert {account : Bool} {sealed : BTreeMap SealedRecord} (valid : HintsValid account sealed)
    {key : String} {row : SealedRecord} (new : ∀ hint, row.publicIdentity = some hint →
      hint.isValidFor row.envelope = true ∧ hintedKind account row.envelope.kind = true) :
    HintsValid account (sealed.insert key row) := by
  intro other kept held
  rw [BTreeMap.get?_insert] at held
  split at held
  · cases held
    exact new
  · exact valid other kept held

theorem HintsValid.erase {account : Bool} {sealed : BTreeMap SealedRecord} (valid : HintsValid account sealed)
    (key : String) : HintsValid account (sealed.erase key) := by
  intro other kept held
  rw [BTreeMap.get?_erase] at held
  split at held
  · cases held
  · exact valid other kept held

theorem mergeRow_hints {account : Bool} {rows rows' : MergeRows} {envelope : Envelope}
    (valid : HintsValid account rows.sealed) (merges : mergeRow P keys account rows envelope = .ok rows') :
    HintsValid account rows'.sealed := by
  cases arrives : arrival P keys account envelope with
  | Public remote =>
    rw [(mergeRow_public arrives merges).2.2.1]
    split
    · exact valid
    · exact valid.erase _
  | Secret remote =>
    rw [(mergeRow_secret arrives merges).2.1]
    refine valid.insert fun hint found => ?_
    unfold mergedSealed at found ⊢
    split at found
    · cases found
    · next cached held =>
      split at found
      · next keep =>
        rw [if_pos keep]
        exact valid _ cached held hint found
      · cases found
  | Retained =>
    obtain ⟨row, inserted, identity⟩ := retainOpaque_identity (mergeRow_retained arrives merges).2.2
    rw [inserted]
    exact valid.insert fun hint found => verifiedPublicIdentity_valid (identity ▸ found)

theorem mergeRows_hints {account : Bool} {rows rows' : MergeRows} {pulled : List Envelope}
    (valid : HintsValid account rows.sealed) (merges : mergeRows P keys account rows pulled = .ok rows') :
    HintsValid account rows'.sealed := by
  refine Result.foldlM_invariant (fun _ (rows : MergeRows) => HintsValid account rows.sealed) valid ?_ merges
  intro _ _ _ _ _ _ valid stepped
  exact mergeRow_hints valid stepped

theorem admitRetainedGroupOrder_hints {rows rows' : MergeRows} (valid : HintsValid true rows.sealed)
    (admits : admitRetainedGroupOrder P keys rows = .ok rows') : HintsValid true rows'.sealed := by
  unfold admitRetainedGroupOrder at admits
  dsimp only at admits
  split at admits
  · cases admits
    exact valid
  · next retained waits =>
    split at admits
    · cases admits
      exact valid
    · split at admits
      · exact mergeRows_hints (valid.erase _) admits
      · cases admits
        exact valid.insert fun hint found => verifiedPublicIdentity_valid found

theorem sealedRows_iff {account : Bool} {sealed : BTreeMap SealedRecord} :
    (∀ (key : String) row, sealed[key]? = some row → SealedRowValid account key row) ↔
      HintsValid account sealed ∧ ∀ (key : String) row, sealed[key]? = some row → key = row.envelope.wireKey :=
  ⟨fun valid => ⟨fun key row held => (valid key row held).hint, fun key row held => (valid key row held).key⟩,
    fun ⟨hints, keyed⟩ key row held => ⟨hints key row held, keyed key row held⟩⟩

theorem scopeRow_of_valid {remote : Record} {spaceId : String} (chain : isChainId spaceId = true)
    (clear : remote.kind.isSecret = false) (valid : validPublic P keys remote false = true) :
    ScopeRowValid P (.Space spaceId) (recordKey remote.kind remote.id) remote := by
  simp only [validPublic, Bool.false_eq_true, if_false] at valid
  refine ⟨⟨clear, rfl⟩, fun kind => ?_, fun kind => ?_⟩
  · rw [if_pos kind, Bool.and_eq_true] at valid
    exact decodeGroup_isOk_scope chain valid.1
  · rw [if_neg kind, Bool.and_eq_true] at valid
    exact decodeHost_isOk_scope chain valid.1

theorem SpaceValid.merge (hex : P.HexHashes) {id : String} {space : SpaceStateV3} {pulled : PullResponse}
    {since : Nat} {gate : AccountGate} (valid : SpaceValid P id space)
    (admitted : (mergeSpace P keys space pulled since gate).gate = .Compatible) :
    SpaceValid P id (mergeSpace P keys space pulled since gate).section_ := by
  obtain ⟨rows, _, cursor, merges, after, _⟩ := mergeSpace_compatible admitted
  obtain ⟨identities, sequences⟩ := validPull_nodup cursor
  have run := mergeRows_run hex identities sequences merges
  obtain ⟨hints, named⟩ := sealedRows_iff.mp valid.sealed
  have keyed := RecordRotation.mergeRows_keyed valid.keyed merges
  rw [after]
  refine ⟨valid.chain, fun key row held => ?_, sealedRows_iff.mpr ⟨mergeRows_hints hints merges, keyed.sealed⟩⟩
  obtain ⟨old, found, same⟩ | ⟨envelope, _, arrives, rfl, _⟩ := run.row_source held
  · rw [same]
    exact valid.rows key old found
  · obtain ⟨_, clear, admissible⟩ := arrival_public arrives
    exact scopeRow_of_valid valid.chain clear admissible

/-! The account marker that wins is the one the gate looked at. -/

theorem object_of_metaSchema {record : Record} (versioned : (metaSchema record).isSome = true) :
    ∃ fields, record.payload = .obj fields := by
  cases shape : record.payload with
  | obj fields => exact ⟨fields, rfl⟩
  | _ => simp [metaSchema, shape, Json.get] at versioned

theorem record_view {names : List String} {strict : Bool} {fields : List (String × Json)}
    {view : String → Option Json} (read : (Json.obj fields).record names strict = some view) :
    view = fun name => fields.lookup name := by
  rw [Json.record] at read
  split at read
  · cases read
  · exact (Option.some.inj read).symm

theorem validMeta_spec {record : Record} {payload : MetaPayloadV3} (valid : validMeta record = .ok payload) :
    MetaPayloadV3.ofJson record.payload = some payload ∧
      (MIN_ACCOUNT_SCHEMA ≤ payload.schemaVersion && payload.schemaVersion ≤ ACCOUNT_SCHEMA) = true ∧
      ∀ gate, payload.migration = some gate → validateMigrationGate gate = .ok () := by
  unfold validMeta at valid
  split at valid
  · cases valid
  · split at valid
    · cases valid
    · next read =>
      split at valid
      · cases valid
      · next known =>
        split at valid
        · cases valid
        · next marked =>
          cases valid
          refine ⟨read, by simpa using known, fun gate found => ?_⟩
          rw [found, Option.any_some, Bool.not_eq_true', Bool.not_eq_false] at marked
          obtain ⟨_, checked⟩ := Result.isOk_iff.mp marked
          exact checked

/-- A marker that the gate accepts is one a saved account may hold. -/
theorem validateAccountMeta_of_valid {record : Record} {payload : MetaPayloadV3}
    (valid : validMeta record = .ok payload) (versioned : (metaSchema record).isSome = true) :
    validateAccountMeta record = .ok () := by
  obtain ⟨read, known, gates⟩ := validMeta_spec valid
  obtain ⟨fields, object⟩ := object_of_metaSchema versioned
  rw [object] at read
  simp only [MetaPayloadV3.ofJson, Option.bind_eq_bind, Option.bind_eq_some_iff] at read
  obtain ⟨view, strict, schema, version, app, created, migration, gate, result⟩ := read
  cases result
  rw [record_view strict] at version created gate
  have decoded : metaSchemaVersion record.payload = some schema := by
    rw [object]
    simp [metaSchemaVersion, Json.record, version, created]
  have held : record.payload.get "migration" = fields.lookup "migration" := by rw [object, Json.get]
  rw [validateAccountMeta, decoded, ofDecoder, Result.ok_bind, known, Bool.not_true, Result.refuse_false,
    Result.ok_bind, held]
  unfold Json.fieldOr at gate
  dsimp only at gate
  cases field : fields.lookup "migration" with
  | none => rfl
  | some value =>
    rw [field] at gate
    cases value with
    | null => rfl
    | _ =>
      simp only [Json.optionOf, Option.map_eq_some_iff] at gate
      obtain ⟨marker, decodes, rfl⟩ := gate
      simp only [decodes, ofDecoder, Result.ok_bind]
      exact gates marker rfl

theorem marker_of_gate {records : BTreeMap LocalRecord} {pulled : List Envelope}
    (distinct : (pulled.map Envelope.identity).Nodup) {schema : Option UInt32}
    (compatible : (gateOf ((pulled.filter fun row =>
        row.kind == "meta" && row.idHash == idHash P keys "meta" accountMetaId).foldl (scanMarker P keys)
      { schema, winner := records[recordKey .Meta accountMetaId]?, unreadable := false })).1 = .Compatible)
    {envelope : Envelope} (member : envelope ∈ pulled) {remote : Record}
    (arrives : arrival P keys true envelope = .Public remote)
    (named : recordKey remote.kind remote.id = recordKey .Meta accountMetaId)
    (wins : merge records[recordKey .Meta accountMetaId]? remote ≠ .KeepLocal) :
    validateAccountMeta remote = .ok () := by
  obtain ⟨_, winner, payload, chosen, versioned, valid⟩ := RecordRotation.gateOf_compatible compatible
  obtain ⟨opened, _, _⟩ := arrival_public arrives
  obtain ⟨wireKind, hash, _⟩ := openRecord_ok opened
  obtain ⟨kind, id⟩ := recordKey_injective named
  rw [kind] at wireKind hash
  rw [id] at hash
  have listed : envelope ∈ pulled.filter fun row =>
      row.kind == "meta" && row.idHash == idHash P keys "meta" accountMetaId :=
    List.mem_filter.mpr ⟨member, by simp [wireKind, hash, RecordKind.asStr]⟩
  obtain none_ | ⟨marker, _, _, _, only⟩ :=
    RecordRotation.markers_cases distinct "meta" (idHash P keys "meta" accountMetaId)
  · rw [none_] at listed
    cases listed
  · rw [only, List.mem_singleton] at listed
    subst listed
    rw [only, List.foldl_cons, List.foldl_nil, scanMarker, opened] at chosen
    dsimp only at chosen
    rw [if_pos (by simpa using wins)] at chosen
    cases chosen
    exact validateAccountMeta_of_valid valid versioned

theorem accountRow_of_admitted {remote : Record} (clear : remote.kind.isSecret = false)
    (valid : validPublic P keys remote true = true)
    (marker : recordKey remote.kind remote.id = recordKey .Meta accountMetaId → validateAccountMeta remote = .ok ()) :
    AccountRowValid P (recordKey remote.kind remote.id) remote := by
  refine ⟨⟨clear, rfl⟩, ?_, ?_, ?_, ?_⟩
  · constructor <;> intro kind <;> simp [validPublic, kind] at valid
  · intro kind
    simp only [validPublic, kind, if_true, Bool.and_eq_true] at valid
    exact valid.1
  · intro kind named
    have order : groupOrderId ≠ accountMetaId := by decide
    simpa [validPublic, kind, named, order] using valid
  · intro kind named _
    exact marker (by rw [kind, named])

theorem Admission.rowsValid {start rows : MergeRows} (admission : Admission P keys start rows)
    (before : ∀ (key : String) row, start.records[key]? = some row → AccountRowValid P key row.record)
    (key : String) (row : LocalRecord) (held : rows.records[key]? = some row) : AccountRowValid P key row.record := by
  cases admission with
  | none => exact before key row held
  | kept => exact before key row held
  | admitted retained waits clean remote _ arrives named records =>
    obtain ⟨_, clear, valid⟩ := arrival_public arrives
    rw [records, BTreeMap.get?_insert] at held
    split at held
    · next here =>
      cases held
      obtain ⟨taken, _⟩ | ⟨old, cached, kept, _⟩ :=
        mergedRow_record start.records[groupOrderKey]? remote retained.envelope.seq
      · rw [taken, ← here, ← named]
        refine accountRow_of_admitted clear valid fun marker => ?_
        exact absurd (named ▸ marker).symm RecordRotation.marker_apart
      · rw [kept, ← here]
        exact before _ _ cached
    · exact before key row held

theorem AccountValid.merge (hex : P.HexHashes) {account : AccountState} {pulled : PullResponse} {since : Nat}
    (valid : AccountValid P account)
    (admitted : (mergeAccount P keys account pulled since).gate = .Compatible) :
    AccountValid P (mergeAccount P keys account pulled since).section_ := by
  obtain ⟨rows, rows', gate, cursor, admits, merges, after, _⟩ := mergeAccount_compatible admitted
  obtain ⟨identities, sequences⟩ := validPull_nodup cursor
  have admission := admitRetainedGroupOrder_admission admits
  have run := mergeRows_run hex identities sequences merges
  obtain ⟨hints, named⟩ := sealedRows_iff.mp valid.sealed
  have keyed := RecordRotation.mergeRows_keyed (RecordRotation.admission_keyed valid.keyed admission) merges
  rw [after]
  refine ⟨valid.chain, fun key row held => ?_, sealedRows_iff.mpr
    ⟨mergeRows_hints (admitRetainedGroupOrder_hints hints admits) merges, keyed.sealed⟩⟩
  obtain ⟨old, found, same⟩ | ⟨envelope, member, arrives, rfl, wins⟩ := run.row_source held
  · rw [same]
    exact admission.rowsValid valid.rows key old found
  · obtain ⟨_, clear, admissible⟩ := arrival_public arrives
    refine accountRow_of_admitted clear admissible fun marker => ?_
    unfold accountGate at gate
    split at gate
    · cases gate
    · rw [marker, admission.otherRecords fun _ => RecordRotation.marker_apart] at wins
      exact marker_of_gate identities gate member arrives marker wins

/-! ## Replacing a section -/

section
variable {pendingValid : PendingAccountOperation → Bool}

theorem SectionsValid.withSpace {id : String} {space space' : SpaceStateV3} (valid : SectionsValid P state)
    (found : state.spaces[id]? = some space) (after : SpaceValid P id space') :
    SectionsValid P (state.withSpace id space') := by
  refine { valid with gates := ?_, spaces := fun other kept held => ?_ }
  · have gates := valid.gates
    have filled : (state.spaces.insert id space').isEmpty = false :=
      BTreeMap.isEmpty_eq_false (BTreeMap.get?_insert_self _ _ _)
    simp only [validateGates, BTreeMap.isEmpty_eq_false found, Bool.not_false] at gates
    simp only [validateGates, SyncStateV3.withSpace, filled, Bool.not_false]
    exact gates
  · rw [SyncStateV3.withSpace, BTreeMap.get?_insert] at held
    split at held
    · next here =>
      cases held
      exact here ▸ after
    · exact valid.spaces other kept held

/-! ## Raising the version -/

end

end Sshelter.Sync
