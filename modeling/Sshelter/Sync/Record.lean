import Sshelter.Sync.Crypto

/-! # Records and last-writer-wins merging

`record.rs`: the record model shared by the account chain and the space chains.
`merge` compares the remote revision with the cached one by `updated_at_ms`, then
prefers a tombstone, then the smaller device id.  Device ids compare as Rust
strings do, which is the order of `String`.
-/

namespace Sshelter.Sync

inductive RecordKind where
  | Host | Group | Key | Password | Device | Meta | Space | SpaceKey | KeySlot
deriving DecidableEq, Repr

namespace RecordKind

def asStr : RecordKind → String
  | Host => "host"
  | Group => "group"
  | Key => "key"
  | Password => "password"
  | Device => "device"
  | Meta => "meta"
  | Space => "space"
  | SpaceKey => "spacekey"
  | KeySlot => "keyslot"

def parse : String → Option RecordKind
  | "host" => some Host
  | "group" => some Group
  | "key" => some Key
  | "password" => some Password
  | "device" => some Device
  | "meta" => some Meta
  | "space" => some Space
  | "spacekey" => some SpaceKey
  | "keyslot" => some KeySlot
  | _ => none

/-- Kinds whose plaintext is a secret: only their ciphertext is cached. -/
def isSecret : RecordKind → Bool
  | Key | Password | SpaceKey => true
  | _ => false

end RecordKind

structure Record where
  kind : RecordKind
  id : String
  version : Nat
  updatedAtMs : Nat
  deviceId : String
  deleted : Bool
  payload : Json
deriving DecidableEq, Repr

structure LocalRecord where
  record : Record
  seq : Nat
  dirty : Bool
deriving DecidableEq, Repr

def recordKey (kind : RecordKind) (id : String) : String := kind.asStr ++ ":" ++ id

/-- The id of the account `meta` record. -/
def accountMetaId : String := "account"

inductive MergeOutcome where
  | KeepLocal
  | TakeRemote
  | RemoteWinsOverDirtyLocal
deriving DecidableEq, Repr

/-- The remote revision replaces the cached one. -/
def remoteWins (mine remote : Record) : Bool :=
  match compare remote.updatedAtMs mine.updatedAtMs with
  | .gt => true
  | .lt => false
  | .eq =>
    match remote.deleted, mine.deleted with
    | true, false => true
    | false, true => false
    | _, _ => decide (remote.deviceId < mine.deviceId)

def merge (cached : Option LocalRecord) (remote : Record) : MergeOutcome :=
  match cached with
  | none => .TakeRemote
  | some cached =>
    if !remoteWins cached.record remote then .KeepLocal
    else if cached.dirty then .RemoteWinsOverDirtyLocal
    else .TakeRemote

/-- A ciphertext row as the relay stores and returns it. -/
structure Envelope where
  idHash : String
  kind : String
  seq : Nat
  nonce : String
  ciphertext : String
  deleted : Bool
deriving DecidableEq, Repr

def Envelope.sealed (envelope : Envelope) : Sealed :=
  { idHash := envelope.idHash, nonce := envelope.nonce, ciphertext := envelope.ciphertext }

def sealedKey (kind hash : String) : String := kind ++ ":" ++ hash

/-- A row offered to the relay, with the sequence number it was last seen at. -/
structure PushItem where
  idHash : String
  kind : String
  nonce : String
  ciphertext : String
  deleted : Bool
  baseSeq : Nat
deriving DecidableEq, Repr

structure PullResponse where
  records : List Envelope
  latestSeq : Nat
deriving DecidableEq, Repr

structure Outgoing where
  key : String
  item : PushItem
  version : Nat
  updatedAtMs : Nat
deriving DecidableEq, Repr

/-! ## Kind names -/

@[simp] theorem RecordKind.parse_asStr (kind : RecordKind) : RecordKind.parse kind.asStr = some kind := by
  cases kind <;> rfl

theorem RecordKind.asStr_of_parse {text : String} {kind : RecordKind}
    (parsed : RecordKind.parse text = some kind) : kind.asStr = text := by
  unfold RecordKind.parse at parsed
  split at parsed <;> first | contradiction | (cases parsed; rfl)

theorem RecordKind.asStr_injective : Function.Injective RecordKind.asStr := by
  intro a b same
  have parsed : RecordKind.parse a.asStr = RecordKind.parse b.asStr := by rw [same]
  simpa using parsed

theorem RecordKind.colon_not_mem_asStr (kind : RecordKind) : ':' ∉ kind.asStr.toList := by
  cases kind <;> decide

theorem RecordKind.newline_not_mem_asStr (kind : RecordKind) : '\n' ∉ kind.asStr.toList := by
  cases kind <;> decide

theorem recordKey_injective {kind kind' : RecordKind} {id id' : String}
    (same : recordKey kind id = recordKey kind' id') : kind = kind' ∧ id = id' := by
  obtain ⟨kinds, ids⟩ := join_injective kind.colon_not_mem_asStr kind'.colon_not_mem_asStr same
  exact ⟨RecordKind.asStr_injective kinds, ids⟩

/-- A hashed identity determines the kind and the id it was computed from. -/
theorem idHash_kind_injective {P : Primitives} (ideal : P.Ideal) {keys : ChainKeys}
    {kind kind' : RecordKind} {id id' : String}
    (same : idHash P keys kind.asStr id = idHash P keys kind'.asStr id') : kind = kind' ∧ id = id' := by
  obtain ⟨kinds, ids⟩ :=
    idHash_injective ideal kind.newline_not_mem_asStr kind'.newline_not_mem_asStr same
  exact ⟨RecordKind.asStr_injective kinds, ids⟩

/-! ## The revision order

`merge` is a comparison in one linear order: the stamp of a revision is its time,
then its tombstone flag, then its device id with the order reversed. -/

/-- The key by which revisions of one id are ordered. -/
abbrev Stamp := ℕ ×ₗ Bool ×ₗ Stringᵒᵈ

def Record.stamp (record : Record) : Stamp :=
  toLex (record.updatedAtMs, toLex (record.deleted, OrderDual.toDual record.deviceId))

theorem stamp_lt_iff {a b : Record} :
    a.stamp < b.stamp ↔ a.updatedAtMs < b.updatedAtMs ∨
      (a.updatedAtMs = b.updatedAtMs ∧
        (a.deleted < b.deleted ∨ (a.deleted = b.deleted ∧ b.deviceId < a.deviceId))) := by
  simp only [Record.stamp, Prod.Lex.toLex_lt_toLex, OrderDual.toDual_lt_toDual]

theorem remoteWins_iff {mine remote : Record} :
    remoteWins mine remote = true ↔ mine.stamp < remote.stamp := by
  rw [stamp_lt_iff]
  unfold remoteWins
  rcases lt_trichotomy remote.updatedAtMs mine.updatedAtMs with less | equal | greater
  · simp only [compare_lt_iff_lt.mpr less]
    constructor
    · intro contra; contradiction
    · rintro (h | ⟨h, _⟩) <;> omega
  · simp only [equal, lt_irrefl, false_or, true_and]
    cases remote.deleted <;> cases mine.deleted <;> simp
  · simp [compare_gt_iff_gt.mpr greater, greater]

theorem merge_keepLocal_iff {cached : LocalRecord} {remote : Record} :
    merge (some cached) remote = .KeepLocal ↔ remote.stamp ≤ cached.record.stamp := by
  rw [← not_lt, ← remoteWins_iff]
  cases wins : remoteWins cached.record remote <;> cases dirty : cached.dirty <;>
    simp [merge, wins, dirty]

theorem merge_ne_keepLocal_iff {cached : LocalRecord} {remote : Record} :
    merge (some cached) remote ≠ .KeepLocal ↔ cached.record.stamp < remote.stamp := by
  rw [ne_eq, merge_keepLocal_iff, not_le]

theorem merge_conflict_iff {cached : Option LocalRecord} {remote : Record} :
    merge cached remote = .RemoteWinsOverDirtyLocal ↔
      ∃ row, cached = some row ∧ row.dirty = true ∧ row.record.stamp < remote.stamp := by
  cases cached with
  | none => simp [merge]
  | some row =>
    simp only [Option.some.injEq, exists_eq_left', ← remoteWins_iff]
    cases wins : remoteWins row.record remote <;> cases dirty : row.dirty <;>
      simp [merge, wins, dirty]

@[simp] theorem merge_none (remote : Record) : merge none remote = .TakeRemote := rfl

/-- Equal stamps agree on time, tombstone flag and author. -/
theorem stamp_eq_iff {a b : Record} :
    a.stamp = b.stamp ↔
      a.updatedAtMs = b.updatedAtMs ∧ a.deleted = b.deleted ∧ a.deviceId = b.deviceId := by
  simp [Record.stamp, Prod.ext_iff]

end Sshelter.Sync
