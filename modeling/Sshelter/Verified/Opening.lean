import Sshelter.Sync.RecordMerge

/-! # Opening a pulled row

What a successfully opened row says about its envelope: the relay-visible kind,
hash and tombstone flag are those of the record inside.  An opened row therefore
owns its cache slot: no row of another identity shares its wire key.
-/

namespace Sshelter.Sync

variable {P : Primitives} {keys : ChainKeys}

/-- The identity a pull lists at most once. -/
def Envelope.identity (envelope : Envelope) : String × String := (envelope.kind, envelope.idHash)

def Envelope.wireKey (envelope : Envelope) : String := sealedKey envelope.kind envelope.idHash

/-- Opening reads everything but the sequence number. -/
@[simp] theorem openRecord_withSeq (envelope : Envelope) (seq : Nat) :
    openRecord P keys { envelope with seq } = openRecord P keys envelope := rfl

theorem sameCiphertext_iff {a b : Envelope} :
    sameCiphertext a b = true ↔ b = { a with seq := b.seq } := by
  obtain ⟨hashA, kindA, seqA, nonceA, textA, deletedA⟩ := a
  obtain ⟨hashB, kindB, seqB, nonceB, textB, deletedB⟩ := b
  simp only [sameCiphertext, Bool.and_eq_true, beq_iff_eq, Envelope.mk.injEq, true_and]
  constructor
  · rintro ⟨⟨⟨⟨rfl, rfl⟩, rfl⟩, rfl⟩, rfl⟩
    exact ⟨rfl, rfl, rfl, rfl, rfl⟩
  · rintro ⟨rfl, rfl, rfl, rfl, rfl⟩
    exact ⟨⟨⟨⟨rfl, rfl⟩, rfl⟩, rfl⟩, rfl⟩

theorem openRecord_of_sameCiphertext {a b : Envelope} (same : sameCiphertext a b = true) :
    openRecord P keys b = openRecord P keys a := by
  rw [sameCiphertext_iff.mp same]
  exact openRecord_withSeq a b.seq

theorem openRecord_ok {envelope : Envelope} {record : Record}
    (opened : openRecord P keys envelope = .ok record) :
    envelope.kind = record.kind.asStr ∧
      envelope.idHash = idHash P keys record.kind.asStr record.id ∧
      envelope.deleted = record.deleted := by
  unfold openRecord at opened
  split at opened
  · cases opened
  · rename_i kind parsed
    split at opened
    · cases opened
    · split at opened
      · cases opened
      · split at opened
        · cases opened
        · rename_i found _
          split at opened
          · cases opened
          · rename_i matching
            cases opened
            simp only [Bool.or_eq_true, bne_iff_ne, ne_eq, not_or, Decidable.not_not] at matching
            obtain ⟨⟨kinds, deleted⟩, hash⟩ := matching
            refine ⟨?_, ?_, deleted.symm⟩
            · rw [kinds, RecordKind.asStr_of_parse parsed]
            · rw [kinds, hash]
    · cases opened

/-- Two opened rows of one record have one identity. -/
theorem identity_of_recordKey {a b : Envelope} {recordA recordB : Record}
    (openedA : openRecord P keys a = .ok recordA) (openedB : openRecord P keys b = .ok recordB)
    (same : recordKey recordA.kind recordA.id = recordKey recordB.kind recordB.id) :
    a.identity = b.identity := by
  obtain ⟨kinds, ids⟩ := recordKey_injective same
  obtain ⟨kindA, hashA, _⟩ := openRecord_ok openedA
  obtain ⟨kindB, hashB, _⟩ := openRecord_ok openedB
  rw [Envelope.identity, Envelope.identity, kindA, kindB, hashA, hashB, kinds, ids]

/-- An opened row shares its wire key with no other identity. -/
theorem identity_of_wireKey (hex : P.HexHashes) {a b : Envelope} {record : Record}
    (opened : openRecord P keys a = .ok record) (same : b.wireKey = a.wireKey) :
    b.identity = a.identity := by
  obtain ⟨kind, hash, _⟩ := openRecord_ok opened
  have freeKind : ':' ∉ a.kind.toList := by rw [kind]; exact record.kind.colon_not_mem_asStr
  have freeHash : ':' ∉ a.idHash.toList := by rw [hash]; exact colon_not_mem_idHash hex keys _ _
  -- The joined text holds exactly one separator, so the other kind holds none.
  have counts := congrArg (fun text => text.toList.count ':') same
  simp only [Envelope.wireKey, sealedKey, String.toList_append, List.count_append] at counts
  have one : (":" : String).toList.count ':' = 1 := by decide
  rw [List.count_eq_zero_of_not_mem freeKind, List.count_eq_zero_of_not_mem freeHash, one] at counts
  have freeOther : ':' ∉ b.kind.toList := List.count_eq_zero.mp (by omega)
  obtain ⟨kinds, hashes⟩ := join_injective freeOther freeKind same
  rw [Envelope.identity, Envelope.identity, kinds, hashes]

/-! ## Opening what was sealed -/

/-- The row the relay stores for an accepted push. -/
def PushItem.envelope (item : PushItem) (seq : Nat) : Envelope :=
  { idHash := item.idHash, kind := item.kind, seq, nonce := item.nonce, ciphertext := item.ciphertext
    deleted := item.deleted }

theorem readHeader_toJson (record : Record) :
    readHeader
      [("deleted", .bool record.deleted), ("device_id", .str record.deviceId), ("id", .str record.id),
        ("kind", .str record.kind.asStr), ("payload", record.payload),
        ("updated_at_ms", .num record.updatedAtMs), ("version", .num record.version)] =
      some record := by
  refine Json.read_step (a := record.kind) (RecordKind.parse_asStr record.kind) ?_
  rfl

theorem openRecord_encodeRecord (ideal : P.Ideal) (record : Record) (baseSeq seq : Nat)
    (nonce : String) :
    openRecord P keys ((encodeRecord P keys record baseSeq nonce).envelope seq) = .ok record := by
  have plaintext : openJson P keys record.kind.asStr
      ((encodeRecord P keys record baseSeq nonce).envelope seq) = some record.toJson := by
    have opened := cryptoOpen_cryptoSeal ideal keys record.kind.asStr record.id nonce
      (P.toText record.toJson)
    simp only [openJson]
    exact (congrArg (fun text => text.bind P.fromText) opened).trans (ideal.fromText_toText _)
  unfold openRecord
  have kind : ((encodeRecord P keys record baseSeq nonce).envelope seq).kind = record.kind.asStr := rfl
  rw [kind, RecordKind.parse_asStr, plaintext]
  simp only [Record.toJson]
  rw [readHeader_toJson, if_neg (by simp [headerFields])]
  simp [encodeRecord, PushItem.envelope]

end Sshelter.Sync
