import Sshelter.Verified.PlainPrimitives
import Sshelter.Verified.Readable

/-! # Review and the outgoing set

A round first asks whether the hosts of a space need review and, when they do not,
collects the outgoing rows of the space.  The two decisions look at retained
envelopes differently: the review asks whether an envelope wins over a live host,
the outgoing set refuses any envelope in the slot of a dirty row.  Reading the
library already rules out every other refusal.
-/

namespace Sshelter.Sync

/-- The slot a cached record has on the relay. -/
def Record.slot (P : Primitives) (keys : ChainKeys) (record : Record) : String :=
  sealedKey record.kind.asStr (idHash P keys record.kind.asStr record.id)

/-- Every dirty row of the space is a valid typed record.  A retained envelope of a space is
never one, so none of them is dirty. -/
structure DirtyRowsTyped (P : Primitives) (keys : ChainKeys) (space : SpaceStateV3) : Prop where
  records : ∀ entry ∈ space.records.toList, entry.2.dirty = true →
    validPublic P keys entry.2.record false = true
  sealed : ∀ entry ∈ space.sealed.toList, entry.2.dirty = false

instance {P : Primitives} {keys : ChainKeys} {space : SpaceStateV3} :
    Decidable (DirtyRowsTyped P keys space) :=
  decidable_of_iff
    ((∀ entry ∈ space.records.toList, entry.2.dirty = true →
        validPublic P keys entry.2.record false = true) ∧
      ∀ entry ∈ space.sealed.toList, entry.2.dirty = false)
    ⟨fun ⟨records, sealed⟩ => ⟨records, sealed⟩, fun typed => ⟨typed.records, typed.sealed⟩⟩

/-- No dirty row of the space shares its slot with a retained envelope. -/
def DirtySlotsFree (P : Primitives) (keys : ChainKeys) (space : SpaceStateV3) : Prop :=
  ∀ entry ∈ space.records.toList, entry.2.dirty = true →
    space.sealed.contains (entry.2.record.slot P keys) = false

instance {P : Primitives} {keys : ChainKeys} {space : SpaceStateV3} :
    Decidable (DirtySlotsFree P keys space) :=
  inferInstanceAs (Decidable (∀ entry ∈ space.records.toList, _))

section
variable {P : Primitives} {keys : ChainKeys}

theorem outgoingPublic_isOk {sealed : BTreeMap SealedRecord} {nonces : String → String}
    {key : String} {row : LocalRecord} (cached : CacheValid key row.record)
    (valid : validPublic P keys row.record false = true) :
    (outgoingPublic P keys sealed false nonces (key, row)).isOk = true ↔
      sealed.contains (row.record.slot P keys) = false := by
  have named : (key != recordKey row.record.kind row.record.id) = false := by simp [cached.key]
  simp only [outgoingPublic, cached.public, named, valid, Bool.false_or, Bool.not_true,
    show sealedKey row.record.kind.asStr (idHash P keys row.record.kind.asStr row.record.id) =
      row.record.slot P keys from rfl]
  cases sealed.contains (row.record.slot P keys) <;> simp

theorem outgoing_isOk {space : SpaceStateV3} {nonces : String → String}
    (cached : ∀ key row, space.records[key]? = some row → CacheValid key row.record)
    (typed : DirtyRowsTyped P keys space) :
    (outgoing P keys space.records space.sealed false nonces).isOk = true ↔
      DirtySlotsFree P keys space := by
  have clean : (space.sealed.toList.filter fun entry => entry.2.dirty) = [] := by
    rw [List.filter_eq_nil_iff]
    intro entry member
    simp [typed.sealed entry member]
  have collected : (outgoing P keys space.records space.sealed false nonces).isOk =
      ((space.records.toList.filter fun entry => entry.2.dirty).mapM
        (outgoingPublic P keys space.sealed false nonces)).isOk := by
    simp only [outgoing, clean, List.mapM_nil]
    exact Result.isOk_map
  rw [collected, Result.mapM_isOk]
  simp only [List.mem_filter, and_imp]
  apply forall_congr'
  intro entry
  apply forall_congr'
  intro member
  apply forall_congr'
  intro dirty
  have held : space.records[entry.1]? = some entry.2 := BTreeMap.mem_toList.mp member
  exact outgoingPublic_isOk (cached entry.1 entry.2 held) (typed.records entry member dirty)

/-- A review that could decide has read the library. -/
theorem readable_of_review {state : SyncStateV3} {scope : HostScope} {needed : Bool}
    (reviewed : scopeRequiresRelationshipReview P state scope = .ok needed) : Readable P state := by
  obtain ⟨repository, read, _⟩ := Result.bind_eq_ok.mp reviewed
  exact snapshot_isOk_iff.mp (Result.isOk_iff.mpr ⟨repository, read⟩)

/-- When no review is needed, the outgoing set is collected exactly if no dirty row shares
its slot with a retained envelope, whichever of the two revisions wins. -/
theorem spaceOutgoing_isOk_iff_slots_free {state : SyncStateV3} {spaceId : String}
    {space : SpaceStateV3} (found : state.spaces[spaceId]? = some space)
    (selected : space.selected = true) (present : space.missing = false)
    (baseline : space.baselineEstablished = true)
    (settled : scopeRequiresRelationshipReview P state (.Space spaceId) = .ok false)
    (typed : DirtyRowsTyped P keys space) (nonces : String → String) :
    (spaceOutgoing P keys space .Compatible nonces).isOk = true ↔ DirtySlotsFree P keys space := by
  have readable := readable_of_review settled
  have scope : .Space spaceId ∈ readableScopes state :=
    mem_readableScopes_space.mpr ⟨space, found, selected, present⟩
  have cached : ∀ key row, space.records[key]? = some row → CacheValid key row.record := by
    intro key row held
    apply (readable.hosts (.Space spaceId) scope key row ?_).cached
    simpa [SyncStateV3.hostRecords, SyncStateV3.spaceRecords, found] using held
  have opened : spaceOutgoing P keys space .Compatible nonces =
      outgoing P keys space.records space.sealed false nonces := by
    simp [spaceOutgoing, selected, present, baseline]
  rw [opened]
  exact outgoing_isOk cached typed

end

/-! ## A retained envelope that loses

The space holds an unsent host; a pull then brings an older revision of it in a format this
version does not read.  The host wins, so no review is asked for, but its slot is taken. -/

namespace Sample

def reviewTable : Primitives :=
  tablePrimitives [("host\n" ++ hostId, "0a")] [("f", (futureHost 1 10).toJson), ("h", (host 2 20 device).toJson)]

/-- A space with one unsent host. -/
def unsentSpace : SpaceStateV3 :=
  { space with
    records := (∅ : BTreeMap LocalRecord).insert (recordKey .Host hostId)
      { record := host 2 20 device, seq := 0, dirty := true } }

/-- The unsupported revision is older than the unsent host. -/
def olderFuture : Envelope :=
  { idHash := "0a", kind := "host", seq := 7, nonce := "n", ciphertext := "nf", deleted := false }

def blockedSpace : SpaceStateV3 :=
  (mergeSpace reviewTable keys unsentSpace { records := [olderFuture], latestSeq := 7 } 0
    .Compatible).section_

end Sample

theorem spaceOutgoing_of_unsent_host :
    DirtySlotsFree Sample.reviewTable Sample.keys Sample.unsentSpace ∧
      (spaceOutgoing Sample.reviewTable Sample.keys Sample.unsentSpace .Compatible id).isOk = true := by
  have free : DirtySlotsFree Sample.reviewTable Sample.keys Sample.unsentSpace := by decide +kernel
  have found : (Sample.library Sample.unsentSpace).spaces[Sample.chainId]? = some Sample.unsentSpace := by
    simp [Sample.library]
  refine ⟨free, (spaceOutgoing_isOk_iff_slots_free found rfl rfl rfl ?_ ?_ id).mpr free⟩
  · decide +kernel
  · decide +kernel

theorem losing_envelope_blocks_outgoing :
    Sample.blockedSpace.selected = true ∧ Sample.blockedSpace.missing = false ∧
      Sample.blockedSpace.baselineEstablished = true ∧
      scopeRequiresRelationshipReview Sample.reviewTable (Sample.library Sample.blockedSpace)
        (.Space Sample.chainId) = .ok false ∧
      DirtyRowsTyped Sample.reviewTable Sample.keys Sample.blockedSpace ∧
      spaceOutgoing Sample.reviewTable Sample.keys Sample.blockedSpace .Compatible id =
        .error mergeFailure := by
  decide +kernel

end Sshelter.Sync
