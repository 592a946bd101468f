import Sshelter.Verified.PlainPrimitives

/-! # A row opens only as what was sealed

The encoder is the derived serializer and the decoder is written field by field; they agree
on every record.  A relay sees the kind, the hashed identity and the tombstone flag beside the
ciphertext and can rewrite all of them, or hand out one row's ciphertext under another's
name: the copy inside the ciphertext and its associated data leave only the record's own row.
-/

namespace Sshelter.Sync

variable {P : Primitives} {keys : ChainKeys}

/-- An authenticated ciphertext opens only with the nonce and the associated data it was made with. -/
def Primitives.Binding (P : Primitives) : Prop :=
  ∀ encKey nonce nonce' aad aad' text opened,
    P.decrypt encKey nonce' aad' (P.encrypt encKey nonce aad text) = some opened → nonce' = nonce ∧ aad' = aad

/-! ## The header inside -/

/-- The plaintext of a row: the seven header fields and no others, with the kind, the identity and the
tombstone flag that its envelope shows. -/
structure SealedHeader (P : Primitives) (keys : ChainKeys) (envelope : Envelope) (fields : List (String × Json))
    (record : Record) : Prop where
  names : ∀ name, name ∈ fields.map Prod.fst ↔ name ∈ headerFields
  kind : fields.lookup "kind" = some (.str envelope.kind)
  id : fields.lookup "id" = some (.str record.id)
  version : fields.lookup "version" = some (.num record.version)
  updatedAtMs : fields.lookup "updated_at_ms" = some (.num record.updatedAtMs)
  deviceId : fields.lookup "device_id" = some (.str record.deviceId)
  deleted : fields.lookup "deleted" = some (.bool envelope.deleted)
  payload : fields.lookup "payload" = some record.payload
  outerKind : envelope.kind = record.kind.asStr
  outerHash : envelope.idHash = idHash P keys envelope.kind record.id
  outerDeleted : envelope.deleted = record.deleted

theorem mem_names_of_lookup {fields : List (String × Json)} {name : String} {value : Json}
    (found : fields.lookup name = some value) : name ∈ fields.map Prod.fst :=
  List.mem_map.mpr ⟨(name, value), mem_of_lookup found, rfl⟩

theorem Json.asStr_eq_some {json : Json} {text : String} (read : json.asStr = some text) : json = .str text := by
  cases json <;> simp_all [Json.asStr]

theorem Json.asU64_eq_some {json : Json} {n : Nat} (read : json.asU64 = some n) : json = .num n := by
  cases json <;> simp_all [Json.asU64]

theorem Json.asBool_eq_some {json : Json} {value : Bool} (read : json.asBool = some value) :
    json = .bool value := by
  cases json <;> simp_all [Json.asBool]

/-- A field read at a type. -/
theorem lookup_of_read {α : Type} {fields : List (String × Json)} {name : String} {read : Json → Option α} {value : α}
    {write : α → Json} (faithful : ∀ {json : Json} {value : α}, read json = some value → json = write value)
    (found : (fields.lookup name).bind read = some value) : fields.lookup name = some (write value) := by
  obtain ⟨json, here, there⟩ := Option.bind_eq_some_iff.mp found
  rw [here, faithful there]

/-- The fields that make up a record. -/
theorem readHeader_lookup {fields : List (String × Json)} {record : Record} (read : readHeader fields = some record) :
    fields.lookup "kind" = some (.str record.kind.asStr) ∧ fields.lookup "id" = some (.str record.id) ∧
      fields.lookup "version" = some (.num record.version) ∧
      fields.lookup "updated_at_ms" = some (.num record.updatedAtMs) ∧
      fields.lookup "device_id" = some (.str record.deviceId) ∧
      fields.lookup "deleted" = some (.bool record.deleted) ∧ fields.lookup "payload" = some record.payload := by
  unfold readHeader at read
  obtain ⟨kind, kindRead, read⟩ := Option.bind_eq_some_iff.mp read
  obtain ⟨id, idRead, read⟩ := Option.bind_eq_some_iff.mp read
  obtain ⟨version, versionRead, read⟩ := Option.bind_eq_some_iff.mp read
  obtain ⟨time, timeRead, read⟩ := Option.bind_eq_some_iff.mp read
  obtain ⟨device, deviceRead, read⟩ := Option.bind_eq_some_iff.mp read
  obtain ⟨deleted, deletedRead, read⟩ := Option.bind_eq_some_iff.mp read
  obtain ⟨payload, payloadRead, read⟩ := Option.bind_eq_some_iff.mp read
  cases read
  obtain ⟨text, textRead, parsed⟩ := Option.bind_eq_some_iff.mp kindRead
  refine ⟨?_, lookup_of_read Json.asStr_eq_some idRead, lookup_of_read Json.asU64_eq_some versionRead,
    lookup_of_read Json.asU64_eq_some timeRead, lookup_of_read Json.asStr_eq_some deviceRead,
    lookup_of_read Json.asBool_eq_some deletedRead, payloadRead⟩
  rw [RecordKind.asStr_of_parse parsed]
  exact lookup_of_read Json.asStr_eq_some textRead

theorem openRecord_header {envelope : Envelope} {record : Record} (opened : openRecord P keys envelope = .ok record) :
    ∃ fields, openJson P keys envelope.kind envelope = some (.obj fields) ∧ readHeader fields = some record ∧
      ∀ field ∈ fields, field.1 ∈ headerFields := by
  have outerKind := (openRecord_ok opened).1
  unfold openRecord at opened
  rw [outerKind, RecordKind.parse_asStr, ← outerKind] at opened
  cases plain : openJson P keys envelope.kind envelope with
  | none =>
    rw [plain] at opened
    cases opened
  | some json =>
    rw [plain] at opened
    cases json with
    | obj fields =>
      simp only at opened
      split at opened
      · cases opened
      · next known =>
        split at opened
        · cases opened
        · next found header =>
          split at opened
          · cases opened
          · cases opened
            refine ⟨fields, rfl, header, fun field member => ?_⟩
            by_contra unknown
            exact known (List.any_eq_true.mpr ⟨field, member, by simpa using unknown⟩)
    | _ => cases opened

theorem openRecord_sealedHeader {envelope : Envelope} {record : Record}
    (opened : openRecord P keys envelope = .ok record) :
    ∃ fields, openJson P keys envelope.kind envelope = some (.obj fields) ∧
      SealedHeader P keys envelope fields record := by
  obtain ⟨outerKind, outerHash, outerDeleted⟩ := openRecord_ok opened
  obtain ⟨fields, plain, header, known⟩ := openRecord_header opened
  obtain ⟨kind, id, version, time, device, deleted, payload⟩ := readHeader_lookup header
  refine ⟨fields, plain,
    { names := fun name => ⟨fun member => ?_, fun member => ?_⟩
      kind := by rw [kind, outerKind]
      deleted := by rw [deleted, outerDeleted]
      outerHash := by rw [outerHash, outerKind]
      id, version, updatedAtMs := time, deviceId := device, payload, outerKind, outerDeleted }⟩
  · obtain ⟨field, here, rfl⟩ := List.mem_map.mp member
    exact known field here
  · simp only [headerFields, List.mem_cons, List.not_mem_nil, or_false] at member
    rcases member with rfl | rfl | rfl | rfl | rfl | rfl | rfl
    · exact mem_names_of_lookup kind
    · exact mem_names_of_lookup id
    · exact mem_names_of_lookup version
    · exact mem_names_of_lookup time
    · exact mem_names_of_lookup device
    · exact mem_names_of_lookup deleted
    · exact mem_names_of_lookup payload

/-! ## Rearranged rows -/

/-- A row that carries the ciphertext of a sealed record opens as that record, and only under its own name. -/
theorem openRecord_carried (ideal : P.Ideal) (binding : P.Binding) {record other : Record} {baseSeq : Nat}
    {nonce : String} {row : Envelope} (carried : row.ciphertext = (encodeRecord P keys record baseSeq nonce).ciphertext)
    (opened : openRecord P keys row = .ok other) :
    other = record ∧ row = (encodeRecord P keys record baseSeq nonce).envelope row.seq := by
  obtain ⟨fields, plain, header, _⟩ := openRecord_header opened
  obtain ⟨text, decrypted, read⟩ := Option.bind_eq_some_iff.mp plain
  simp only [cryptoOpen, Envelope.sealed] at decrypted
  rw [carried] at decrypted
  obtain ⟨sameNonce, sameData⟩ := binding _ _ _ _ _ _ _ decrypted
  rw [sameNonce, sameData] at decrypted
  have sameText := (ideal.decrypt_encrypt _ _ _ _).symm.trans decrypted
  cases sameText
  have sameJson := (ideal.fromText_toText record.toJson).symm.trans read
  simp only [Record.toJson, Option.some.injEq, Json.obj.injEq] at sameJson
  subst sameJson
  rw [readHeader_toJson] at header
  cases header
  obtain ⟨kind, hash, deleted⟩ := openRecord_ok opened
  obtain ⟨rowHash, rowKind, rowSeq, rowNonce, rowText, rowDeleted⟩ := row
  simp only at kind hash deleted carried sameNonce
  subst kind hash deleted carried sameNonce
  exact ⟨rfl, rfl⟩

/-- What a relay can do to the rows it stores without the chain's key. -/
inductive RelayEdit where
  | setKind (index : Nat) (kind : String)
  | setIdHash (index : Nat) (idHash : String)
  | setDeleted (index : Nat) (deleted : Bool)
  | setSeq (index : Nat) (seq : Nat)
  | swapNonces (first second : Nat)
  | swapCiphertexts (first second : Nat)
deriving DecidableEq, Repr

/-- One part of two rows exchanged. -/
def swapRows (rows : List Envelope) (first second : Nat) (take : Envelope → Envelope → Envelope) : List Envelope :=
  match rows[first]?, rows[second]? with
  | some a, some b => (rows.set first (take a b)).set second (take b a)
  | _, _ => rows

def RelayEdit.apply (rows : List Envelope) : RelayEdit → List Envelope
  | .setKind index kind => rows.modify index fun row => { row with kind }
  | .setIdHash index idHash => rows.modify index fun row => { row with idHash }
  | .setDeleted index deleted => rows.modify index fun row => { row with deleted }
  | .setSeq index seq => rows.modify index fun row => { row with seq }
  | .swapNonces first second => swapRows rows first second fun a b => { a with nonce := b.nonce }
  | .swapCiphertexts first second => swapRows rows first second fun a b => { a with ciphertext := b.ciphertext }

/-- Every ciphertext of the rows comes from one of the others. -/
def CarriedFrom (original rows : List Envelope) : Prop :=
  ∀ row ∈ rows, ∃ source ∈ original, row.ciphertext = source.ciphertext

theorem CarriedFrom.refl (rows : List Envelope) : CarriedFrom rows rows := fun row member => ⟨row, member, rfl⟩

theorem CarriedFrom.modify {original rows : List Envelope} (carried : CarriedFrom original rows) (index : Nat)
    {change : Envelope → Envelope} (keeps : ∀ row, (change row).ciphertext = row.ciphertext) :
    CarriedFrom original (rows.modify index change) := by
  intro row member
  obtain ⟨place, bound, rfl⟩ := List.mem_iff_getElem.mp member
  rw [List.getElem_modify]
  have inside : place < rows.length := by simpa using bound
  have here := carried rows[place] (List.getElem_mem inside)
  split
  · rw [keeps]
    exact here
  · exact here

theorem CarriedFrom.swapRows {original rows : List Envelope} (carried : CarriedFrom original rows) (first second : Nat)
    {take : Envelope → Envelope → Envelope}
    (keeps : ∀ a b, (take a b).ciphertext = a.ciphertext ∨ (take a b).ciphertext = b.ciphertext) :
    CarriedFrom original (swapRows rows first second take) := by
  unfold Sync.swapRows
  split
  · next a b hereA hereB =>
    have sourceA := carried a (List.mem_of_getElem? hereA)
    have sourceB := carried b (List.mem_of_getElem? hereB)
    have taken {a b : Envelope} (sourceA : ∃ source ∈ original, a.ciphertext = source.ciphertext)
        (sourceB : ∃ source ∈ original, b.ciphertext = source.ciphertext) :
        ∃ source ∈ original, (take a b).ciphertext = source.ciphertext := by
      rcases keeps a b with same | same
      · rw [same]
        exact sourceA
      · rw [same]
        exact sourceB
    intro row member
    rcases List.mem_or_eq_of_mem_set member with member | rfl
    · rcases List.mem_or_eq_of_mem_set member with member | rfl
      · exact carried row member
      · exact taken sourceA sourceB
    · exact taken sourceB sourceA
  · exact carried

theorem CarriedFrom.apply {original rows : List Envelope} (carried : CarriedFrom original rows) (edit : RelayEdit) :
    CarriedFrom original (edit.apply rows) := by
  cases edit with
  | setKind index kind => exact carried.modify index fun _ => rfl
  | setIdHash index idHash => exact carried.modify index fun _ => rfl
  | setDeleted index deleted => exact carried.modify index fun _ => rfl
  | setSeq index seq => exact carried.modify index fun _ => rfl
  | swapNonces first second => exact carried.swapRows first second fun _ _ => .inl rfl
  | swapCiphertexts first second => exact carried.swapRows first second fun _ _ => .inr rfl

theorem CarriedFrom.run {original rows : List Envelope} (carried : CarriedFrom original rows) (edits : List RelayEdit) :
    CarriedFrom original (edits.foldl RelayEdit.apply rows) := by
  induction edits generalizing rows with
  | nil => exact carried
  | cons edit edits ih => exact ih (carried.apply edit)

/-- A row that a client of the chain sealed. -/
def SealedRow (P : Primitives) (keys : ChainKeys) (row : Envelope) : Prop :=
  ∃ record baseSeq nonce seq, row = (encodeRecord P keys record baseSeq nonce).envelope seq

/-- Encoding and opening agree on every record, an opened row shows what is sealed in it, and of rows that
a relay has rearranged only those open that are still one of the stored rows. -/
theorem rows_open_as_sealed (ideal : P.Ideal) (binding : P.Binding) (keys : ChainKeys) :
    (∀ (record : Record) (baseSeq seq : Nat) (nonce : String),
      openRecord P keys ((encodeRecord P keys record baseSeq nonce).envelope seq) = .ok record) ∧
    (∀ envelope record, openRecord P keys envelope = .ok record →
      ∃ fields, openJson P keys envelope.kind envelope = some (.obj fields) ∧
        SealedHeader P keys envelope fields record) ∧
    ∀ (stored : List Envelope) (edits : List RelayEdit), (∀ row ∈ stored, SealedRow P keys row) →
      ∀ row ∈ edits.foldl RelayEdit.apply stored, ∀ record, openRecord P keys row = .ok record →
        ∃ source ∈ stored, openRecord P keys source = .ok record ∧ row = { source with seq := row.seq } := by
  refine ⟨fun record baseSeq seq nonce => openRecord_encodeRecord ideal record baseSeq seq nonce,
    fun envelope record opened => openRecord_sealedHeader opened,
    fun stored edits sealed row member record opened => ?_⟩
  obtain ⟨source, original, carried⟩ := (CarriedFrom.refl stored).run edits row member
  obtain ⟨written, baseSeq, nonce, seq, rfl⟩ := sealed source original
  have text : row.ciphertext = (encodeRecord P keys written baseSeq nonce).ciphertext := carried
  obtain ⟨rfl, same⟩ := openRecord_carried ideal binding text opened
  exact ⟨_, original, openRecord_encodeRecord ideal record baseSeq seq nonce, same⟩

/-! ## An authenticated instance -/

/-- A ciphertext lists its key, nonce and associated data with the plaintext. -/
def boundDecrypt (encKey nonce aad ciphertext : String) : Option String :=
  match JsonText.fromText ciphertext with
  | some (.arr [.str key, .str drawn, .str data, .str text]) =>
    if key = encKey ∧ drawn = nonce ∧ data = aad then some text else none
  | _ => none

def boundPrimitives : Primitives :=
  { plainPrimitives with
    encrypt := fun encKey nonce aad text => JsonText.toText (.arr [.str encKey, .str nonce, .str aad, .str text])
    decrypt := boundDecrypt }

theorem boundPrimitives_ideal : boundPrimitives.Ideal :=
  { plainPrimitives_ideal with
    decrypt_encrypt := fun encKey nonce aad text => by
      simp [boundPrimitives, boundDecrypt, JsonText.fromText_toText] }

theorem boundPrimitives_binding : boundPrimitives.Binding := by
  intro encKey nonce nonce' aad aad' text opened decrypted
  simp only [boundPrimitives, boundDecrypt, JsonText.fromText_toText] at decrypted
  split at decrypted
  · next same => exact ⟨same.2.1.symm, same.2.2.symm⟩
  · cases decrypted

theorem bound_rows_open_as_sealed :
    boundPrimitives.Ideal ∧ boundPrimitives.Binding ∧
      openRecord boundPrimitives Sample.keys
        ((encodeRecord boundPrimitives Sample.keys Sample.accountMeta 0 "n").envelope 1) = .ok Sample.accountMeta :=
  ⟨boundPrimitives_ideal, boundPrimitives_binding,
    (rows_open_as_sealed boundPrimitives_ideal boundPrimitives_binding Sample.keys).1 Sample.accountMeta 0 1 "n"⟩

end Sshelter.Sync
