import Sshelter.Verified.MergeReadable
import Sshelter.Verified.RotationCopy
import Sshelter.Verified.ValidState

/-! # The source of a rotation

What `sourceFull` accepts: rows cached under their own keys, an account marker that this
version reads in full, and the keys of every live space.  The merge keeps rows under their
keys, and the marker it leaves is the one the account gate looked at.
-/

namespace Sshelter.Sync

variable {P : Primitives}

/-! ## Keys of cached rows -/

theorem AccountValid.keyed {account : AccountState} (valid : AccountValid P account) :
    RecordRotation.KeyedRows account.records account.sealed :=
  ⟨fun key row held => (valid.rows key row held).key, fun key row held => (valid.sealed key row held).key⟩

theorem SpaceValid.keyed {id : String} {space : SpaceStateV3} (valid : SpaceValid P id space) :
    RecordRotation.KeyedRows space.records space.sealed :=
  ⟨fun key row held => (valid.rows key row held).key, fun key row held => (valid.sealed key row held).key⟩

end Sshelter.Sync

namespace Sshelter.Sync.RecordRotation

variable {P : Primitives} {keys : ChainKeys}

theorem wireKey_of_sameCiphertext {a b : Envelope} (same : sameCiphertext a b = true) : b.wireKey = a.wireKey := by
  rw [sameCiphertext_iff.mp same]
  rfl

theorem keyed_mergedRow {records : BTreeMap LocalRecord}
    (keyed : ∀ (key : String) row, records[key]? = some row → key = recordKey row.record.kind row.record.id)
    (remote : Record) (seq : Nat) :
    recordKey remote.kind remote.id =
      recordKey (mergedRow records[recordKey remote.kind remote.id]? remote seq).record.kind
        (mergedRow records[recordKey remote.kind remote.id]? remote seq).record.id := by
  obtain ⟨same, _⟩ | ⟨row, found, same, _⟩ := mergedRow_record records[recordKey remote.kind remote.id]? remote seq
  · rw [same]
  · rw [same]
    exact keyed _ _ found

theorem mergeRow_keyed {account : Bool} {rows rows' : MergeRows} {envelope : Envelope}
    (keyed : KeyedRows rows.records rows.sealed) (merges : mergeRow P keys account rows envelope = .ok rows') :
    KeyedRows rows'.records rows'.sealed := by
  cases arrives : arrival P keys account envelope with
  | Public remote =>
    -- a public row stands under its own record's key, a secret or retained one under its envelope's
    obtain ⟨_, records, sealed, _⟩ := mergeRow_public arrives merges
    refine ⟨fun key row held => ?_, fun key row held => ?_⟩
    · rw [records, BTreeMap.get?_insert] at held
      split at held
      · rename_i here
        cases held
        rw [← here]
        exact keyed_mergedRow keyed.records remote envelope.seq
      · exact keyed.records key row held
    · rw [sealed] at held
      split at held
      · exact keyed.sealed key row held
      · rw [BTreeMap.get?_erase] at held
        split at held
        · cases held
        · exact keyed.sealed key row held
  | Secret remote =>
    obtain ⟨records, sealed, _⟩ := mergeRow_secret arrives merges
    refine ⟨fun key row held => keyed.records key row (records ▸ held), fun key row held => ?_⟩
    rw [sealed, BTreeMap.get?_insert] at held
    split at held
    · rename_i here
      cases held
      rw [← here]
      unfold mergedSealed
      split
      · rfl
      · rename_i cached found
        split
        · exact keyed.sealed _ cached found
        · rfl
    · exact keyed.sealed key row held
  | Retained =>
    obtain ⟨records, _, retained⟩ := mergeRow_retained arrives merges
    obtain ⟨kept, inserted, _, _, origin, _⟩ := retainOpaque_spec retained
    refine ⟨fun key row held => keyed.records key row (records ▸ held), fun key row held => ?_⟩
    rw [inserted, BTreeMap.get?_insert] at held
    split at held
    · rename_i here
      cases held
      rw [← here]
      obtain ⟨same, _⟩ | ⟨cached, found, same, _⟩ := origin
      · rw [same]
      · rw [wireKey_of_sameCiphertext same]
        exact keyed.sealed _ _ found
    · exact keyed.sealed key row held

theorem mergeRows_keyed {account : Bool} {rows rows' : MergeRows} {pulled : List Envelope}
    (keyed : KeyedRows rows.records rows.sealed) (merges : mergeRows P keys account rows pulled = .ok rows') :
    KeyedRows rows'.records rows'.sealed := by
  refine Result.foldlM_invariant (fun _ (rows : MergeRows) => KeyedRows rows.records rows.sealed) keyed ?_ merges
  intro _ _ _ _ _ _ keyed stepped
  exact mergeRow_keyed keyed stepped

theorem admission_keyed {rows rows' : MergeRows} (keyed : KeyedRows rows.records rows.sealed)
    (admission : Admission P keys rows rows') : KeyedRows rows'.records rows'.sealed := by
  cases admission with
  | none => exact keyed
  | kept row waits clean identity =>
    refine ⟨keyed.records, fun key other held => ?_⟩
    rw [BTreeMap.get?_insert] at held
    split at held
    · rename_i here
      cases held
      rw [← here]
      exact keyed.sealed _ row waits
    · exact keyed.sealed key other held
  | admitted row waits clean remote _ arrives key records sealed _ =>
    refine ⟨fun name other held => ?_, fun name other held => ?_⟩
    · rw [records, ← key, BTreeMap.get?_insert] at held
      split at held
      · rename_i here
        cases held
        rw [← here]
        exact keyed_mergedRow keyed.records remote _
      · exact keyed.records name other held
    · rw [sealed, BTreeMap.get?_erase] at held
      split at held
      · cases held
      · exact keyed.sealed name other held

/-! ## The account marker -/

theorem KnownMarker.of_valid {record : Record} {payload : MetaPayloadV3} (valid : validMeta record = .ok payload)
    (versioned : (metaSchema record).isSome = true) :
    ∃ schema, (record.payload.get "schema_version").bind Json.asU64 = some schema ∧ KnownMarker schema record := by
  obtain ⟨_, schema⟩ := Option.isSome_iff_exists.mp versioned
  obtain ⟨schema, found, _⟩ := Option.map_eq_some_iff.mp schema
  refine ⟨schema, found, ?_, fun name unknown => ?_⟩
  · cases value : record.payload.get "schema_version" with
    | none => simp [value] at found
    | some json =>
      rw [value] at found
      cases json <;> simp_all [Json.asU64]
  · unfold validMeta at valid
    split at valid
    · cases valid
    · split at valid
      · cases valid
      · rename_i read
        obtain ⟨fields, strict, _⟩ := Option.bind_eq_some_iff.mp read
        cases shape : record.payload with
        | obj entries =>
          rw [shape, Json.record] at strict
          split at strict
          · cases strict
          · rename_i known
            rw [Json.get, List.lookup_eq_none_iff]
            intro entry member
            simp only [Bool.true_and, List.any_eq_true, Bool.not_eq_true', not_exists, not_and,
              Bool.not_eq_false] at known
            have listed := known entry member
            rw [bne_iff_ne]
            rintro rfl
            exact unknown (by simpa using listed)
        | _ => rfl

theorem gateOf_compatible {scan : MarkerScan} (compatible : (gateOf scan).1 = .Compatible) :
    scan.unreadable = false ∧ ∃ winner payload, scan.winner = some winner ∧
      (metaSchema winner.record).isSome = true ∧ validMeta winner.record = .ok payload := by
  unfold gateOf at compatible
  split at compatible
  · cases compatible
  · split at compatible
    · cases compatible
    · rename_i readable
      refine ⟨by simpa using readable, ?_⟩
      split at compatible
      · cases compatible
      · rename_i winner chosen
        split at compatible
        · cases compatible
        · rename_i winning version
          split at compatible
          · cases compatible
          · split at compatible
            · rename_i gate refused
              -- a marker that is not valid names its own gate, which is never the compatible one
              simp only at compatible
              subst compatible
              unfold validMeta at refused
              split at refused
              · cases refused
              · split at refused
                · cases refused
                · split at refused
                  · cases refused
                  · split at refused <;> cases refused
            · rename_i payload valid
              exact ⟨winner, payload, chosen, by rw [version]; rfl, valid⟩

/-- A pull lists the marker at most once. -/
theorem markers_cases {pulled : List Envelope} (distinct : (pulled.map Envelope.identity).Nodup) (kind hash : String) :
    (pulled.filter fun row => row.kind == kind && row.idHash == hash) = [] ∨
      ∃ row ∈ pulled, row.kind = kind ∧ row.idHash = hash ∧
        (pulled.filter fun row => row.kind == kind && row.idHash == hash) = [row] := by
  cases found : pulled.filter fun row => row.kind == kind && row.idHash == hash with
  | nil => exact .inl rfl
  | cons first rest =>
    have good (row : Envelope) (member : row ∈ first :: rest) : row ∈ pulled ∧ row.kind = kind ∧ row.idHash = hash := by
      rw [← found, List.mem_filter] at member
      simpa using member
    obtain ⟨inside, isKind, isHash⟩ := good first List.mem_cons_self
    refine .inr ⟨first, inside, isKind, isHash, ?_⟩
    cases rest with
    | nil => rfl
    | cons second others =>
      have nodup : ((first :: second :: others).map Envelope.identity).Nodup := by
        rw [← found]
        exact distinct.sublist (List.Sublist.map _ List.filter_sublist)
      obtain ⟨_, isKind', isHash'⟩ := good second (by simp)
      simp [Envelope.identity, isKind, isHash, isKind', isHash'] at nodup

theorem marker_apart : recordKey .Meta accountMetaId ≠ groupOrderKey := by
  intro same
  exact absurd (recordKey_injective same).2 (by decide)

/-- Merging leaves the marker that the gate found to be the winner. -/
theorem merged_marker (ideal : P.Ideal) {start rows : MergeRows} {pulled : List Envelope}
    (run : MergeRun P keys true start pulled rows) (distinct : (pulled.map Envelope.identity).Nodup)
    {schema : Option UInt32}
    (compatible : (gateOf ((pulled.filter fun row =>
        row.kind == "meta" && row.idHash == idHash P keys "meta" accountMetaId).foldl (scanMarker P keys)
      { schema, winner := start.records[recordKey .Meta accountMetaId]?, unreadable := false })).1 = .Compatible) :
    ∃ row payload, rows.records[recordKey .Meta accountMetaId]? = some row ∧
      (metaSchema row.record).isSome = true ∧ validMeta row.record = .ok payload := by
  obtain ⟨readable, winner, payload, chosen, versioned, valid⟩ := gateOf_compatible compatible
  -- a public row with the marker's key is an opened marker
  have opens {envelope : Envelope} {remote : Record} (arrives : arrival P keys true envelope = .Public remote)
      (named : recordKey remote.kind remote.id = recordKey .Meta accountMetaId) :
      envelope.kind = "meta" ∧ envelope.idHash = idHash P keys "meta" accountMetaId := by
    obtain ⟨opened, _, _⟩ := arrival_public arrives
    obtain ⟨wireKind, hash, _⟩ := openRecord_ok opened
    obtain ⟨kind, id⟩ := recordKey_injective named
    rw [kind] at wireKind hash
    rw [id] at hash
    exact ⟨wireKind, hash⟩
  obtain none_ | ⟨marker, member, kind, hash, only⟩ :=
    markers_cases distinct "meta" (idHash P keys "meta" accountMetaId)
  · rw [none_] at chosen
    refine ⟨winner, payload, ?_, versioned, valid⟩
    rw [run.recordsFrame]
    · exact chosen
    · intro envelope inside remote arrives named
      obtain ⟨isMeta, isMarker⟩ := opens arrives named
      have listed : envelope ∈ pulled.filter fun row =>
          row.kind == "meta" && row.idHash == idHash P keys "meta" accountMetaId :=
        List.mem_filter.mpr ⟨inside, by simp [isMeta, isMarker]⟩
      rw [none_] at listed
      cases listed
  · rw [only, List.foldl_cons, List.foldl_nil, scanMarker] at chosen readable
    cases opened : openRecord P keys marker with
    | error code =>
      rw [opened] at readable
      cases readable
    | ok remote =>
      rw [opened] at chosen
      simp only at chosen
      obtain ⟨wireKind, wireHash, _⟩ := openRecord_ok opened
      have isMeta : remote.kind = .Meta := by
        apply RecordKind.asStr_injective
        rw [← wireKind, kind]
        rfl
      have isAccount : remote.id = accountMetaId := by
        rw [hash, isMeta] at wireHash
        have hashes : idHash P keys RecordKind.Meta.asStr accountMetaId =
            idHash P keys RecordKind.Meta.asStr remote.id := wireHash
        exact (idHash_kind_injective ideal hashes).2.symm
      have named : recordKey remote.kind remote.id = recordKey .Meta accountMetaId := by rw [isMeta, isAccount]
      by_cases wins : merge start.records[recordKey .Meta accountMetaId]? remote = .KeepLocal
      · rw [if_neg (by simp [wins])] at chosen
        cases arrives : arrival P keys true marker with
        | Public other =>
          obtain ⟨opened', _, _⟩ := arrival_public arrives
          rw [opened] at opened'
          cases opened'
          have held := run.publicRow marker member remote arrives
          rw [named, chosen] at held
          refine ⟨_, payload, held, ?_⟩
          rw [chosen] at wins
          simpa [mergedRow, wins] using ⟨versioned, valid⟩
        | _ =>
          refine ⟨winner, payload, ?_, versioned, valid⟩
          rw [run.recordsFrame]
          · exact chosen
          · intro envelope inside other arrives' named'
            obtain ⟨isMeta, isMarker⟩ := opens arrives' named'
            have listed : envelope ∈ pulled.filter fun row =>
                row.kind == "meta" && row.idHash == idHash P keys "meta" accountMetaId :=
              List.mem_filter.mpr ⟨inside, by simp [isMeta, isMarker]⟩
            rw [only, List.mem_singleton] at listed
            subst listed
            rw [arrives] at arrives'
            cases arrives'
      · rw [if_pos (by simpa using wins)] at chosen
        cases chosen
        have public_ : validPublic P keys remote true = true := by
          simp only [validPublic, if_true, isMeta, isAccount]
          exact Result.isOk_iff.mpr ⟨payload, valid⟩
        have arrives : arrival P keys true marker = .Public remote :=
          arrival_public_iff.mpr ⟨opened, by rw [isMeta]; rfl, public_⟩
        have held := run.publicRow marker member remote arrives
        rw [named] at held
        refine ⟨_, payload, held, ?_⟩
        obtain ⟨same, _⟩ | ⟨_, _, _, keeps⟩ :=
          mergedRow_record start.records[recordKey .Meta accountMetaId]? remote marker.seq
        · rw [same]
          exact ⟨versioned, valid⟩
        · exact absurd keeps wins

/-! ## What is accepted -/

/-- An account and spaces that can be copied. -/
structure Accepted (P : Primitives) (keys : ChainKeys) (account : AccountState) (spaces : BTreeMap SpaceStateV3) :
    Prop where
  keyed : KeyedRows account.records account.sealed
  marker : ∀ row ∈ account.records.values, row.record.kind = .Meta → row.record.id = accountMetaId →
    KnownMarker (sourceSchema account) row.record
  spaceKeyed : ∀ (id : String) space, spaces[id]? = some space → KeyedRows space.records space.sealed
  present : ∀ (id : String) space, spaces[id]? = some space → space.missing = false
  keys : ∀ (id : String) space, spaces[id]? = some space → ∃ child, spaceKeys P keys account id = .ok (some child)

theorem mergeAccount_accepted (ideal : P.Ideal) {source : AccountState} {pulled : PullResponse}
    (keyed : KeyedRows source.records source.sealed)
    (compatible : (mergeAccount P keys source pulled 0).gate = .Compatible) :
    KeyedRows (mergeAccount P keys source pulled 0).section_.records
        (mergeAccount P keys source pulled 0).section_.sealed ∧
      ∀ row ∈ (mergeAccount P keys source pulled 0).section_.records.values, row.record.kind = .Meta →
        row.record.id = accountMetaId →
          KnownMarker (sourceSchema (mergeAccount P keys source pulled 0).section_) row.record := by
  obtain ⟨rows, rows', gate, valid, admits, merges, section_, _⟩ := mergeAccount_compatible compatible
  have admission := admitRetainedGroupOrder_admission admits
  obtain ⟨identities, sequences⟩ := validPull_nodup valid
  have run := mergeRows_run ideal.hmac_hex identities sequences merges
  have start : KeyedRows (MergeRows.begin source.records source.sealed).records
      (MergeRows.begin source.records source.sealed).sealed := keyed
  have merged := mergeRows_keyed (admission_keyed start admission) merges
  have before : rows.records[recordKey .Meta accountMetaId]? = source.records[recordKey .Meta accountMetaId]? :=
    admission.otherRecords fun _ => marker_apart
  have found : ∃ row payload, rows'.records[recordKey .Meta accountMetaId]? = some row ∧
      (metaSchema row.record).isSome = true ∧ validMeta row.record = .ok payload := by
    unfold accountGate at gate
    split at gate
    · cases gate
    · simp only at gate
      rw [← before] at gate
      exact merged_marker ideal run identities gate
  rw [section_]
  refine ⟨merged, fun row member kind id => ?_⟩
  obtain ⟨known, payload, held, versioned, valid⟩ := found
  obtain ⟨key, here⟩ := BTreeMap.mem_values.mp member
  have named := merged.records key row here
  rw [kind, id] at named
  rw [named] at here
  obtain rfl : known = row := Option.some.inj (held.symm.trans here)
  obtain ⟨schema, version, marker⟩ := KnownMarker.of_valid valid versioned
  have same : sourceSchema { source with
      records := rows'.records, sealed := rows'.sealed, cursorSeq := pulled.latestSeq
      baselineEstablished := true, remoteSchemaVersion := (accountGate P keys source pulled).2 } = schema := by
    simp [sourceSchema, held, version]
  rw [same]
  exact marker

/-- Every entry of a filled map was written by one round of the loop. -/
theorem fill_mem {α β : Type} {items : List α} {entry : α → Rotation (String × β)} {m : BTreeMap β}
    (filled : fill items entry = .ok m) {key : String} {value : β} (held : m[key]? = some value) :
    ∃ item ∈ items, entry item = .ok (key, value) := by
  obtain ⟨entries, ran, same⟩ := Result.bind_eq_ok.mp filled
  cases same
  have written : ∀ (entries : List (String × β)) (start : BTreeMap β),
      (start.insertAll entries)[key]? = some value → (key, value) ∈ entries ∨ start[key]? = some value := by
    intro entries
    induction entries with
    | nil => exact fun start held => .inr held
    | cons first rest ih =>
      intro start held
      obtain later | here := ih (start.insert first.1 first.2) held
      · exact .inl (List.mem_cons_of_mem _ later)
      · rw [BTreeMap.get?_insert] at here
        split at here
        · rename_i named
          cases here
          subst named
          exact .inl List.mem_cons_self
        · exact .inr here
  obtain member | empty := written entries ∅ held
  · exact (Result.mem_mapM ran).mp member
  · simp at empty

theorem sourceSpace_accepted {pull : (chainId token : String) → Rotation PullResponse} {account : AccountState}
    {cached : BTreeMap SpaceStateV3} (cachedKeyed : ∀ (id : String) space, cached[id]? = some space →
      KeyedRows space.records space.sealed) {id key : String} {space : SpaceStateV3}
    (read : sourceSpace P pull account keys cached id = .ok (key, space)) :
    key = id ∧ KeyedRows space.records space.sealed ∧ space.missing = false ∧
      ∃ child, spaceKeys P keys account id = .ok (some child) := by
  have start : KeyedRows ((cached[id]?).getD .default).records ((cached[id]?).getD .default).sealed := by
    cases found : cached[id]? with
    | none => exact ⟨by simp [SpaceStateV3.default], by simp [SpaceStateV3.default]⟩
    | some space => exact cachedKeyed id space found
  rw [sourceSpace, Result.refuse_bind_eq_ok] at read
  obtain ⟨present, read⟩ := read
  obtain ⟨found, credentials, read⟩ := Result.bind_eq_ok.mp read
  obtain ⟨child, given, read⟩ := Result.bind_eq_ok.mp read
  obtain ⟨pulled, _, read⟩ := Result.bind_eq_ok.mp read
  rw [Result.check_eq_ok, Result.refuse_bind_eq_ok] at read
  obtain ⟨_, settled, read⟩ := read
  cases read
  simp only [Bool.or_eq_false_iff, bne_eq_false_iff_eq] at settled
  obtain ⟨rows, _, _, merges, section_, _⟩ := mergeSpace_compatible settled.1.1
  have known : found = some child := by
    unfold orMissing at given
    split at given
    · cases given
      rfl
    · cases given
  refine ⟨rfl, ?_, ?_, child, known ▸ credentials⟩
  · rw [section_]
    exact mergeRows_keyed start merges
  · rw [section_]
    exact present

theorem sourceFull_accepted (ideal : P.Ideal) {pull : (chainId token : String) → Rotation PullResponse}
    {source account : AccountState} {cached spaces : BTreeMap SpaceStateV3}
    (sourceValid : validateAccountSection P source = .ok ())
    (cachedValid : ∀ entry ∈ cached.toList, validateSpaceSection P entry = .ok ())
    (read : sourceFull P pull source keys cached = .ok (account, spaces)) : Accepted P keys account spaces := by
  obtain ⟨pulled, _, read⟩ := Result.bind_eq_ok.mp read
  rw [Result.check_eq_ok, Result.refuse_bind_eq_ok, Result.refuse_bind_eq_ok] at read
  obtain ⟨_, gate, _, read⟩ := read
  obtain ⟨found, filled, read⟩ := Result.bind_eq_ok.mp read
  rw [Result.refuse_bind_eq_ok] at read
  obtain ⟨_, same⟩ := read
  cases same
  have source_ := validateAccountSection_eq_ok.mp sourceValid
  obtain ⟨keyed, marker⟩ := mergeAccount_accepted ideal source_.keyed (by simpa using gate)
  have each {id : String} {space : SpaceStateV3} (held : spaces[id]? = some space) :
      KeyedRows space.records space.sealed ∧ space.missing = false ∧
        ∃ child, spaceKeys P keys (mergeAccount P keys source pulled 0).section_ id = .ok (some child) := by
    obtain ⟨item, _, ran⟩ := fill_mem filled held
    obtain ⟨rfl, rest⟩ := sourceSpace_accepted
      (fun id space held => (validateSpaceSection_eq_ok.mp (cachedValid (id, space) (BTreeMap.mem_toList.mpr held))).keyed)
      ran
    exact rest
  exact ⟨keyed, marker, fun _ _ held => (each held).1, fun _ _ held => (each held).2.1,
    fun _ _ held => (each held).2.2⟩

end Sshelter.Sync.RecordRotation
