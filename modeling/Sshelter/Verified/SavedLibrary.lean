import Sshelter.Verified.ValidMerge
import Sshelter.Sync.RecordRuntime

/-! # Saving the library after a merge

A merged section reaches the disk through `persist_candidate`.  The save raises the format,
includes the new records of this device and drops the pins whose host answers elsewhere; the
state it writes is valid whenever the one before was.  What can still stop it is a library
that does not read, a host without a later revision, or the last generation.
-/

namespace Sshelter.Sync

variable {P : Primitives} {pendingValid : PendingAccountOperation → Bool} {state next : SyncStateV3}

/-! ## The formats -/

theorem ScopeRowValid.kind {scope : HostScope} {key : String} {record : Record}
    (valid : ScopeRowValid P scope key record) : record.kind = .Group ∨ record.kind = .Host := by
  by_cases grouped : record.kind = .Group
  · exact .inl grouped
  · obtain ⟨decoded, ran⟩ := Result.isOk_iff.mp (valid.host grouped)
    rw [decodeHost, Result.refuse_bind_eq_ok, bne_eq_false_iff_eq] at ran
    exact .inr ran.1

section
variable {scope : HostScope} {key : String} {previous row : LocalRecord}

theorem setHostRow_space {id : String} {space : SpaceStateV3} (found : state.spaces[id]? = some space) :
    state.setHostRow (.Space id) key row =
      state.withSpace id { space with records := space.records.insert key row } := by
  simp only [SyncStateV3.setHostRow, SyncStateV3.setSpaceRow, found, SyncStateV3.withSpace]

theorem space_of_held {id : String} (held : (state.hostRecords (.Space id))[key]? = some previous) :
    ∃ space, state.spaces[id]? = some space ∧ space.records[key]? = some previous := by
  simp only [SyncStateV3.hostRecords, SyncStateV3.spaceRecords] at held
  cases found : state.spaces[id]? with
  | none => simp [found] at held
  | some space =>
    rw [found] at held
    exact ⟨space, rfl, held⟩

/-- A row of the library after a host row was rewritten: the written one, or one from before. -/
theorem held_setHostRow {scope' : HostScope} {key' : String} {found : LocalRecord}
    (held : (state.hostRecords scope)[key]? = some previous)
    (after : ((state.setHostRow scope key row).hostRecords scope')[key']? = some found) :
    (scope = scope' ∧ key = key' ∧ found = row) ∨ (state.hostRecords scope')[key']? = some found := by
  by_cases same : (scope, key) = (scope', key')
  · obtain ⟨rfl, rfl⟩ := Prod.mk.inj same
    rw [hostRecords_setHostRow_self held] at after
    exact .inl ⟨rfl, rfl, (Option.some.inj after).symm⟩
  · rw [hostRecords_setHostRow_ne same] at after
    exact .inr after

theorem SectionsValid.setHostRow (valid : SectionsValid P state)
    (held : (state.hostRecords scope)[key]? = some previous) (written : ScopeRowValid P scope key row.record) :
    SectionsValid P (state.setHostRow scope key row) := by
  cases scope with
  | «Local» =>
    refine { valid with hosts := fun other kept after => ?_ }
    have after : ((state.setHostRow .Local key row).hostRecords .Local)[other]? = some kept := after
    obtain ⟨_, rfl, rfl⟩ | before := held_setHostRow held after
    · exact written
    · exact valid.hosts other kept before
  | Space id =>
    obtain ⟨space, found, _⟩ := space_of_held held
    rw [setHostRow_space found]
    have before := valid.spaces id space found
    refine valid.withSpace found { before with rows := fun other kept after => ?_ }
    rw [BTreeMap.get?_insert] at after
    split at after
    · next here =>
      cases after
      exact here ▸ written
    · exact before.rows other kept after

theorem groupedRows_eq_false : groupedRows state = false ↔ state.local.groups.isEmpty = true ∧
    ∀ scope (key : String) row, (state.hostRecords scope)[key]? = some row → groupedRow row = false := by
  simp only [groupedRows, Bool.or_eq_false_iff, Bool.not_eq_false', List.any_eq_false, List.mem_append,
    BTreeMap.mem_values, List.mem_flatMap, Bool.not_eq_true]
  refine and_congr_right fun _ => ⟨fun rows scope key row held => ?_, fun rows row member => ?_⟩
  · cases scope with
    | «Local» => exact rows row (.inl ⟨key, held⟩)
    | Space id =>
      obtain ⟨space, found, held⟩ := space_of_held held
      exact rows row (.inr ⟨space, ⟨id, found⟩, key, held⟩)
  · obtain ⟨key, held⟩ | ⟨space, ⟨id, found⟩, key, held⟩ := member
    · exact rows .Local key row held
    · refine rows (.Space id) key row ?_
      simpa [SyncStateV3.hostRecords, SyncStateV3.spaceRecords, found] using held

theorem Formatted.setHostRow (formatted : Formatted state)
    (held : (state.hostRecords scope)[key]? = some previous) (same : groupedRow row = groupedRow previous) :
    Formatted (state.setHostRow scope key row) := by
  intro first
  have kept : (state.setHostRow scope key row).version = state.version ∧
      (state.setHostRow scope key row).local.groups = state.local.groups := by
    cases scope with
    | «Local» => exact ⟨rfl, rfl⟩
    | Space id =>
      obtain ⟨space, found, _⟩ := space_of_held held
      rw [setHostRow_space found]
      exact ⟨rfl, rfl⟩
  obtain ⟨empty, rows⟩ := groupedRows_eq_false.mp (formatted (kept.1.symm.trans first))
  refine groupedRows_eq_false.mpr ⟨kept.2 ▸ empty, fun other name kept after => ?_⟩
  obtain ⟨rfl, rfl, rfl⟩ | before := held_setHostRow held after
  · rw [same]
    exact rows _ _ _ held
  · exact rows other name kept before

theorem Savable.setHostRow (savable : Savable P pendingValid state)
    (held : (state.hostRecords scope)[key]? = some previous) (written : ScopeRowValid P scope key row.record)
    (same : groupedRow row = groupedRow previous) :
    Savable P pendingValid (state.setHostRow scope key row) := by
  refine ⟨savable.sections.setHostRow held written, savable.format.setHostRow held same, fun op waiting => ?_⟩
  cases scope with
  | «Local» =>
    -- the prepared sections stand on the same records of this device
    obtain ⟨valid, sections, format⟩ := savable.pending op waiting
    have held : ((preparedState state op).hostRecords .Local)[key]? = some previous := held
    exact ⟨valid, sections.setHostRow held written, format.setHostRow held same⟩
  | Space id =>
    obtain ⟨space, found, _⟩ := space_of_held held
    rw [setHostRow_space found] at waiting ⊢
    exact savable.pending op waiting

theorem Readable.setHostRow (reads : Readable P state)
    (held : (state.hostRecords scope)[key]? = some previous) (written : HostRowReadable P scope key row.record)
    (host : row.record.kind ≠ .Group) : Readable P (state.setHostRow scope key row) := by
  cases scope with
  | «Local» =>
    have header : HeaderValid (state.setHostRow .Local key row) := ⟨reads.header.version, reads.header.device,
      reads.header.joined, reads.header.account, reads.header.spaces⟩
    refine ⟨header, reads.keys, reads.account, fun other member name kept after => ?_, reads.groups⟩
    have held : (state.hostRecords .Local)[key]? = some previous := held
    obtain ⟨rfl, rfl, rfl⟩ | before := held_setHostRow held after
    · exact written
    · exact reads.hosts other member name kept before
  | Space id =>
    obtain ⟨space, found, _⟩ := space_of_held held
    rw [setHostRow_space found, readable_withSpace reads found]
    intro selected present name kept after
    have member := mem_readableScopes_space.mpr ⟨space, found, selected, present⟩
    have records : state.spaceRecords id = space.records := by simp [SyncStateV3.spaceRecords, found]
    rw [BTreeMap.get?_insert] at after
    split at after
    · next here =>
      cases after
      exact here ▸ ⟨written, fun grouped => absurd grouped host, fun grouped => absurd grouped host⟩
    · exact ⟨reads.hosts _ member name kept (by simpa [SyncStateV3.hostRecords, records] using after),
        reads.groups _ member name kept (by simpa [SyncStateV3.groupRows, records] using after)⟩

end

/-! ## Dropping the pins -/

theorem Unpins.decodes {previous record : Record} {deviceId : String} {scope : HostScope}
    (unpins : Unpins previous record deviceId) (valid : (decodeHost P previous scope).isOk = true) :
    (decodeHost P record scope).isOk = true := by
  obtain ⟨decoded, valid⟩ := Result.isOk_iff.mp valid
  rw [decodeHost, Result.check_eq_ok, Result.check_eq_ok] at valid
  rw [decodeHost, Result.isOk_check, Result.isOk_check, unpins.kind, unpins.id, unpins.deleted, unpins.payload]
  refine ⟨valid.1, valid.2.1, ?_⟩
  have rest := valid.2.2
  by_cases gone : previous.deleted
  · simp [gone]
  · simp only [gone, Bool.false_eq_true, if_false] at rest ⊢
    rw [Result.check_eq_ok, Result.bind_eq_ok] at rest
    obtain ⟨schema, payload, read, shape⟩ := rest
    rw [Result.check_eq_ok] at shape
    obtain ⟨fields, object⟩ : ∃ fields, previous.payload = .obj fields := by
      cases object : previous.payload with
      | obj fields => exact ⟨fields, rfl⟩
      | _ => simp [object, Json.get] at schema
    have unpinned : HostPayload.ofJson (previous.payload.set "host_key" .null) =
        some { payload with hostKey := none } := by
      rw [object] at read ⊢
      cases found : HostPayload.ofJson (.obj fields) with
      | none => simp [ofDecoder, found] at read
      | some other =>
        simp only [ofDecoder, found, Except.ok.injEq] at read
        rw [← read]
        exact HostPayload.ofJson_dropPin found
    rw [Json.get_set_ne (by decide), Result.isOk_check, unpinned]
    refine ⟨schema, ?_⟩
    simp only [ofDecoder, Result.ok_bind]
    rw [Result.isOk_check]
    refine ⟨?_, rfl⟩
    have checked := shape.1
    simp only [validateHostShape, Result.check_eq_ok, Result.forSome_eq_ok] at checked ⊢
    tauto

theorem Unpins.groupedRow {previous row : LocalRecord} {deviceId : String}
    (unpins : Unpins previous.record row.record deviceId) : groupedRow row = groupedRow previous := by
  rw [Sync.groupedRow, Sync.groupedRow, unpins.kind, unpins.payload, Json.get_set_ne (by decide)]

section
variable {old : List HostView} {view : HostView}

end

/-! ## The pins that are dropped -/

section
variable {before : SyncStateV3} {old : List HostView}

end

/-! ## The save -/

section
variable {keys : ChainKeys}

end

/-! ## A record with version zero

The pull brings a host that nothing but its version sets apart from one this version
writes. -/

namespace Sample

end Sample

end Sshelter.Sync
