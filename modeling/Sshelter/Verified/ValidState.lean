import Sshelter.Sync.StateChecks
import Sshelter.Verified.Opening

/-! # States that may be saved

What `validate_state` accepts, as facts about the rows of a state.  Its rows need not be
numbered, so a state can be saved that cannot be read again.
-/

namespace Sshelter.Sync

variable {P : Primitives} {state : SyncStateV3}

/-! ## Rows -/

/-- A cached row under its own key. -/
structure CacheKeyed (key : String) (record : Record) : Prop where
  «public» : record.kind.isSecret = false
  key : key = recordKey record.kind record.id

theorem validateCacheKey_eq_ok {key : String} {row : LocalRecord} :
    validateCacheKey key row = .ok () ↔ CacheKeyed key row.record := by
  simp only [validateCacheKey, Result.refuse_bind_eq_ok, Result.refuse_eq_ok, bne_eq_false_iff_eq]
  constructor
  · rintro ⟨clear, named⟩
    exact ⟨clear, named⟩
  · intro keyed
    exact ⟨keyed.public, keyed.key⟩

/-- A row among the hosts of a scope. -/
structure ScopeRowValid (P : Primitives) (scope : HostScope) (key : String) (record : Record) : Prop
    extends CacheKeyed key record where
  group : record.kind = .Group → (decodeGroup record scope).isOk = true
  host : record.kind ≠ .Group → (decodeHost P record scope).isOk = true

theorem validateScopeRow_eq_ok {scope : HostScope} {entry : String × LocalRecord} :
    validateScopeRow P scope entry = .ok () ↔ ScopeRowValid P scope entry.1 entry.2.record := by
  obtain ⟨key, row⟩ := entry
  rw [validateScopeRow, Result.check_eq_ok, validateCacheKey_eq_ok]
  by_cases grouped : row.record.kind = .Group
  · rw [if_pos grouped, Result.bind_eq_ok]
    constructor
    · rintro ⟨keyed, value, decoded, _⟩
      exact ⟨keyed, fun _ => Result.isOk_iff.mpr ⟨value, decoded⟩, fun other => absurd grouped other⟩
    · intro valid
      obtain ⟨value, decoded⟩ := Result.isOk_iff.mp (valid.group grouped)
      exact ⟨valid.toCacheKeyed, value, decoded, rfl⟩
  · rw [if_neg grouped, Result.bind_eq_ok]
    constructor
    · rintro ⟨keyed, value, decoded, _⟩
      exact ⟨keyed, fun other => absurd other grouped, fun _ => Result.isOk_iff.mpr ⟨value, decoded⟩⟩
    · intro valid
      obtain ⟨value, decoded⟩ := Result.isOk_iff.mp (valid.host grouped)
      exact ⟨valid.toCacheKeyed, value, decoded, rfl⟩

/-- A retained row under its wire key, with ordering evidence of its own kind. -/
structure SealedRowValid (account : Bool) (key : String) (row : SealedRecord) : Prop where
  hint : ∀ hint, row.publicIdentity = some hint →
    hint.isValidFor row.envelope = true ∧ hintedKind account row.envelope.kind = true
  key : key = row.envelope.wireKey

theorem validateSealedRow_eq_ok {account : Bool} {entry : String × SealedRecord} :
    validateSealedRow account entry = .ok () ↔ SealedRowValid account entry.1 entry.2 := by
  obtain ⟨key, row⟩ := entry
  rw [validateSealedRow, Result.refuse_bind_eq_ok, Result.refuse_eq_ok, bne_eq_false_iff_eq]
  constructor
  · rintro ⟨hints, named⟩
    refine ⟨fun hint found => ?_, named⟩
    rw [found] at hints
    simpa using hints
  · intro valid
    refine ⟨?_, valid.key⟩
    cases found : row.publicIdentity with
    | none => rfl
    | some hint => simp [valid.hint hint found]

/-- A row of the account. -/
structure AccountRowValid (P : Primitives) (key : String) (record : Record) : Prop
    extends CacheKeyed key record where
  kind : record.kind ≠ .Host ∧ record.kind ≠ .Group
  keyslot : record.kind = .KeySlot → (decodeKeyslot P record).isOk = true
  order : record.kind = .Meta → record.id = groupOrderId → (GroupOrder.decode record).isSome = true
  marker : record.kind = .Meta → record.id = accountMetaId → record.deleted = false →
    validateAccountMeta record = .ok ()

theorem validateAccountRow_eq_ok {entry : String × LocalRecord} :
    validateAccountRow P entry = .ok () ↔ AccountRowValid P entry.1 entry.2.record := by
  obtain ⟨key, row⟩ := entry
  rw [validateAccountRow, Result.check_eq_ok, validateCacheKey_eq_ok]
  have apart : accountMetaId ≠ groupOrderId := by decide
  dsimp only
  cases kind : row.record.kind with
  | KeySlot =>
    constructor
    · rintro ⟨keyed, rest⟩
      obtain ⟨value, decoded, _⟩ := Result.bind_eq_ok.mp rest
      exact ⟨keyed, by simp [kind], fun _ => Result.isOk_iff.mpr ⟨value, decoded⟩, by simp [kind], by simp [kind]⟩
    · intro valid
      obtain ⟨value, decoded⟩ := Result.isOk_iff.mp (valid.keyslot kind)
      exact ⟨valid.toCacheKeyed, Result.bind_eq_ok.mpr ⟨value, decoded, rfl⟩⟩
  | Meta =>
    dsimp only
    constructor
    · rintro ⟨keyed, rest⟩
      refine ⟨keyed, by simp [kind], by simp [kind], fun _ named => ?_, fun _ named live => ?_⟩
      · rw [if_pos named, Result.refuse_eq_ok, Option.isNone_eq_false_iff] at rest
        exact rest
      · rw [if_neg (named ▸ apart), if_pos (by simp [named, live])] at rest
        exact rest
    · intro valid
      refine ⟨valid.toCacheKeyed, ?_⟩
      split
      · next named =>
        rw [Result.refuse_eq_ok, Option.isNone_eq_false_iff]
        exact valid.order kind named
      · split
        · next marker =>
          simp only [Bool.and_eq_true, decide_eq_true_eq, Bool.not_eq_true'] at marker
          exact valid.marker kind marker.1 marker.2
        · rfl
  | Host | Group =>
    constructor
    · rintro ⟨_, rest⟩
      cases rest
    · intro valid
      exact absurd kind (by simp [valid.kind])
  | _ =>
    constructor
    · rintro ⟨keyed, _⟩
      exact ⟨keyed, by simp [kind], by simp [kind], by simp [kind], by simp [kind]⟩
    · intro valid
      exact ⟨valid.toCacheKeyed, rfl⟩

/-! ## Sections and states -/

structure AccountValid (P : Primitives) (account : AccountState) : Prop where
  chain : isChainId account.chainId = true
  rows : ∀ (key : String) row, account.records[key]? = some row → AccountRowValid P key row.record
  sealed : ∀ (key : String) row, account.sealed[key]? = some row → SealedRowValid true key row

structure SpaceValid (P : Primitives) (id : String) (space : SpaceStateV3) : Prop where
  chain : isChainId id = true
  rows : ∀ (key : String) row, space.records[key]? = some row → ScopeRowValid P (.Space id) key row.record
  sealed : ∀ (key : String) row, space.sealed[key]? = some row → SealedRowValid false key row

/-- What `validate_state` asks of the sections, the formats apart. -/
structure SectionsValid (P : Primitives) (state : SyncStateV3) : Prop where
  gates : validateGates state = .ok ()
  order : GroupOrder.validIds state.local.groupOrder = true ∧
    (state.local.groupOrder ≠ [] → NAVIGATION_STATE_VERSION ≤ state.version)
  hosts : ∀ (key : String) row, state.local.hosts[key]? = some row → ScopeRowValid P .Local key row.record
  groups : forEach state.local.groups.toList validateGroupRow = .ok ()
  keys : forEach state.local.keys.toList (validateLocalKey P) = .ok ()
  receipts : forEach state.local.importReceipts.toList validateReceipt = .ok ()
  spaces : ∀ (id : String) space, state.spaces[id]? = some space → SpaceValid P id space
  account : ∀ account, state.account = some account → AccountValid P account

/-- A state of the first format holds no record that needs the groups. -/
def Formatted (state : SyncStateV3) : Prop := state.version = STATE_VERSION → groupedRows state = false

theorem validateSealed_eq_ok {account : Bool} {sealed : BTreeMap SealedRecord} :
    validateSealed sealed account = .ok () ↔
      ∀ (key : String) row, sealed[key]? = some row → SealedRowValid account key row := by
  rw [validateSealed, Result.forEach_eq_ok]
  simp only [validateSealedRow_eq_ok, Prod.forall, BTreeMap.mem_toList]

theorem validateHosts_eq_ok {records : BTreeMap LocalRecord} {scope : HostScope} :
    validateHosts P records scope = .ok () ↔
      ∀ (key : String) row, records[key]? = some row → ScopeRowValid P scope key row.record := by
  rw [validateHosts, Result.forEach_eq_ok]
  simp only [validateScopeRow_eq_ok, Prod.forall, BTreeMap.mem_toList]

theorem validateAccountSection_eq_ok {account : AccountState} :
    validateAccountSection P account = .ok () ↔ AccountValid P account := by
  rw [validateAccountSection, Result.refuse_bind_eq_ok, Result.check_eq_ok, validateSealed_eq_ok,
    Result.forEach_eq_ok]
  simp only [validateAccountRow_eq_ok, Prod.forall, BTreeMap.mem_toList, Bool.not_eq_false']
  constructor
  · rintro ⟨chain, rows, sealed⟩
    exact ⟨chain, rows, sealed⟩
  · intro valid
    exact ⟨valid.chain, valid.rows, valid.sealed⟩

theorem validateSpaceSection_eq_ok {entry : String × SpaceStateV3} :
    validateSpaceSection P entry = .ok () ↔ SpaceValid P entry.1 entry.2 := by
  rw [validateSpaceSection, Result.refuse_bind_eq_ok, Result.check_eq_ok, validateSealed_eq_ok,
    validateHosts_eq_ok, Bool.not_eq_false']
  constructor
  · rintro ⟨chain, rows, sealed⟩
    exact ⟨chain, rows, sealed⟩
  · intro valid
    exact ⟨valid.chain, valid.rows, valid.sealed⟩

/-- A state may be saved: its sections are valid, and so are those an account operation has
prepared. -/
structure Savable (P : Primitives) (pendingValid : PendingAccountOperation → Bool) (state : SyncStateV3) :
    Prop where
  sections : SectionsValid P state
  format : Formatted state
  pending : ∀ op, state.pendingAccount = some op → pendingValid op = true ∧
    SectionsValid P (preparedState state op) ∧ Formatted (preparedState state op)

end Sshelter.Sync
