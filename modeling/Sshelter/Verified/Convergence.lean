import Sshelter.Verified.Tracked

/-! # Convergence of a shared space

A push that the relay accepts extends the log; everything a device or a message knew
stays true of the longer log.  When nothing is dirty and every cursor is at the end of
the log, each device holds exactly the relay's rows.
-/

namespace Sshelter.Sync

open Relay (Chain PushResult)

section
variable {P : Primitives} {keys : ChainKeys}

/-! ## Collecting outgoing rows -/

section Offer
variable {log : List Envelope} {world : World} {device : String} {nonces : String → String}
  {rows : List TypedOutgoing}

theorem outgoingPublic_spec {sealed : BTreeMap SealedRecord} {account : Bool} {key : String}
    {row : LocalRecord} {out : TypedOutgoing}
    (collected : outgoingPublic P keys sealed account nonces (key, row) = .ok out) :
    key = recordKey row.record.kind row.record.id ∧ out.outgoing.key = key ∧
      out.outgoing.item = encodeRecord P keys row.record row.seq (nonces key) ∧
      out.expected = .Public row.record := by
  simp only [outgoingPublic] at collected
  split at collected
  · cases collected
  · rename_i admitted
    cases collected
    simp only [Bool.or_eq_true, not_or, bne_iff_ne, ne_eq, Decidable.not_not] at admitted
    exact ⟨admitted.1.1.2, rfl, rfl, rfl⟩

/-- Without sealed rows the outgoing rows are the dirty records. -/
theorem spaceOutgoing_spec {space : SpaceStateV3} (empty : space.sealed = ∅)
    (collected : spaceOutgoing P keys space .Compatible nonces = .ok rows) :
    (rows.map (·.outgoing.key)).Nodup ∧
      ∀ out ∈ rows, ∃ (key : String) (row : LocalRecord), space.records[key]? = some row ∧
        out.outgoing.key = key ∧ out.outgoing.item = encodeRecord P keys row.record row.seq (nonces key) ∧
        out.expected = .Public row.record := by
  simp only [spaceOutgoing] at collected
  split at collected
  · cases collected
  · simp only [outgoing, Result.bind_eq_ok] at collected
    obtain ⟨publicRows, publicly, sealedRows, sealedly, made⟩ := collected
    have none_sealed : space.sealed.toList = [] := by rw [empty]; rfl
    rw [none_sealed] at sealedly
    obtain rfl : [] = sealedRows := Except.ok.inj sealedly
    cases made
    rw [List.append_nil]
    constructor
    · rw [Result.mapM_keys Prod.fst (fun out => out.outgoing.key) _ publicly]
      · exact (space.records.toList_keys_nodup).sublist (List.Sublist.map _ List.filter_sublist)
      · rintro ⟨key, row⟩ out made
        exact (outgoingPublic_spec made).2.1
    · intro out member
      obtain ⟨⟨key, row⟩, among, made⟩ := (Result.mem_mapM publicly).mp member
      obtain ⟨_, keyed, item, expected⟩ := outgoingPublic_spec made
      exact ⟨key, row, BTreeMap.mem_toList.mp (List.mem_filter.mp among).1, keyed, item, expected⟩

theorem Tracked.offer (tracked : Tracked P keys log world)
    (collected : spaceOutgoing P keys (world.device device) .Compatible nonces = .ok rows) :
    Tracked P keys log { world with offers := (device, rows) :: world.offers } := by
  have before := tracked.device device
  obtain ⟨distinct, each⟩ := spaceOutgoing_spec before.sealed collected
  -- an offer makes no revision that its device does not hold
  have kept : ∀ record, Revision P keys log { world with offers := (device, rows) :: world.offers } record →
      Revision P keys log world record := by
    intro record revision
    cases revision with
    | logged member opened => exact .logged member opened
    | held found => exact .held found
    | @offered other sent out _ sentOut member expected =>
      rcases List.mem_cons.mp sentOut with same | sentOut
      · cases same
        obtain ⟨key, row, found, _, _, made⟩ := each out member
        cases made.symm.trans expected
        exact .held found
      · exact .offered sentOut member expected
  refine { tracked with offers := ?_, receipts := ?_, unique := ?_, authored := ?_ }
  · intro other sent member
    rcases List.mem_cons.mp member with same | member
    · cases same
      refine ⟨fun out among => ?_, distinct⟩
      obtain ⟨key, row, found, keyed, item, expected⟩ := each out among
      obtain ⟨slot, host⟩ := before.rows key row found
      have base : out.outgoing.item.baseSeq = row.seq := by rw [item]; rfl
      refine ⟨row.record, expected, keyed.trans slot, ⟨nonces key, base ▸ item⟩, host, ?_, ?_⟩
      · rw [base]
        rcases before.origin key row found with zero | ⟨entry, logged, _, _, _, same⟩
        · omega
        · exact same ▸ (tracked.explained.range entry logged).2
      · rw [base]
        exact before.covers key row found
    · exact tracked.offers other sent member
  · intro other sent pushed member
    obtain ⟨offered, ok⟩ := tracked.receipts other sent pushed member
    exact ⟨List.mem_cons_of_mem _ offered, ok⟩
  · intro a b revisionA revisionB
    exact tracked.unique a b (kept a revisionA) (kept b revisionB)
  · intro record revision
    exact tracked.authored record (kept record revision)

end Offer

/-! ## The log grows

Rows are added behind the latest number, so nothing that speaks of the numbers before it
changes. -/

section Extend
variable {log more : List Envelope} {latest latest' : Nat}

theorem Covers.extend {seq : Nat} {record : Record} (covers : Covers P keys log seq record)
    (behind : ∀ entry ∈ more, latest < entry.seq) (base : seq ≤ latest) :
    Covers P keys (log ++ more) seq record := by
  intro entry member old opened ids below
  rcases List.mem_append.mp member with member | member
  · exact covers entry member old opened ids below
  · have := behind entry member
    omega

theorem DeviceOk.seq_le {relay : Chain} {space : SpaceStateV3} (explained : LogOk P keys log relay)
    (ok : DeviceOk P keys log relay.latestSeq space) {key : String} {row : LocalRecord}
    (found : space.records[key]? = some row) : row.seq ≤ relay.latestSeq := by
  rcases ok.origin key row found with zero | ⟨entry, member, _, _, _, same⟩
  · omega
  · exact same ▸ (explained.range entry member).2

theorem DeviceOk.extend {relay : Chain} {space : SpaceStateV3} (explained : LogOk P keys log relay)
    (ok : DeviceOk P keys log relay.latestSeq space)
    (behind : ∀ entry ∈ more, relay.latestSeq < entry.seq) (grows : relay.latestSeq ≤ latest') :
    DeviceOk P keys (log ++ more) latest' space where
  sealed := ok.sealed
  rows := ok.rows
  origin key row found := by
    rcases ok.origin key row found with zero | ⟨entry, member, origin⟩
    · exact .inl zero
    · exact .inr ⟨entry, List.mem_append_left _ member, origin⟩
  covers key row found := (ok.covers key row found).extend behind (ok.seq_le explained found)
  clean key row found clean := by
    obtain ⟨entry, member, opened⟩ := ok.clean key row found clean
    exact ⟨entry, List.mem_append_left _ member, opened⟩
  cursor := le_trans ok.cursor grows
  seen entry member record opened below := by
    rcases List.mem_append.mp member with member | member
    · exact ok.seen entry member record opened below
    · have := behind entry member
      have := ok.cursor
      omega

theorem PullOk.extend {since : Nat} {response : PullResponse} (ok : PullOk log latest since response)
    (behind : ∀ entry ∈ more, latest < entry.seq) (grows : latest ≤ latest') :
    PullOk (log ++ more) latest' since response where
  bounded := le_trans ok.bounded grows
  logged row member := List.mem_append_left _ (ok.logged row member)
  complete entry member after below := by
    rcases List.mem_append.mp member with member | member
    · exact ok.complete entry member after below
    · have := behind entry member
      have := ok.bounded
      omega

theorem OfferOk.extend {rows : List TypedOutgoing} (ok : OfferOk P keys log latest rows)
    (behind : ∀ entry ∈ more, latest < entry.seq) (grows : latest ≤ latest') :
    OfferOk P keys (log ++ more) latest' rows where
  each row member := by
    obtain ⟨record, offered⟩ := ok.each row member
    exact ⟨record, { offered with
      base := le_trans offered.base grows, covers := offered.covers.extend behind offered.base }⟩
  distinct := ok.distinct

theorem ReceiptOk.extend {rows : List TypedOutgoing} {pushed : Pushed}
    (ok : ReceiptOk P keys log rows pushed) : ReceiptOk P keys (log ++ more) rows pushed := by
  intro key seq accepted
  obtain ⟨row, member, keyed, record, expected, entry, logged, same⟩ := ok key seq accepted
  exact ⟨row, member, keyed, record, expected, entry, List.mem_append_left _ logged, same⟩

end Extend

/-! ## Pushing -/

section Push
variable {log : List Envelope} {relay after : Chain} {rows batch : List TypedOutgoing}
  {results : List PushResult} {accepted : List (PushItem × Nat)}

/-- The rows an accepted push adds to the log. -/
def addedRows (accepted : List (PushItem × Nat)) : List Envelope :=
  accepted.map fun entry => entry.1.envelope entry.2

/-- Rows with distinct cache keys have distinct hashes. -/
theorem OfferOk.hashes_nodup (ideal : P.Ideal) {latest : Nat} (ok : OfferOk P keys log latest rows)
    (part : batch.Sublist rows) : ((batch.map (·.outgoing.item)).map (·.idHash)).Nodup := by
  have distinct : batch.Pairwise fun a b => a.outgoing.key ≠ b.outgoing.key :=
    List.pairwise_map.mp (ok.distinct.sublist (part.map _))
  rw [List.map_map]
  refine List.pairwise_map.mpr (distinct.imp_of_mem ?_)
  intro a b memberA memberB apart same
  obtain ⟨recordA, offeredA⟩ := ok.each a (part.subset memberA)
  obtain ⟨recordB, offeredB⟩ := ok.each b (part.subset memberB)
  obtain ⟨_, itemA⟩ := offeredA.item
  obtain ⟨_, itemB⟩ := offeredB.item
  apply apart
  rw [offeredA.key, offeredB.key]
  have hashes : idHash P keys recordA.kind.asStr recordA.id = idHash P keys recordB.kind.asStr recordB.id := by
    simp only [Function.comp] at same
    rw [itemA, itemB] at same
    exact same
  rw [(idHash_kind_injective ideal hashes).2]

/-- Every added row is an offered revision. -/
theorem addedRows_offered (ideal : P.Ideal) {latest : Nat} (ok : OfferOk P keys log latest rows)
    (part : batch.Sublist rows)
    (pushed : Chain.Pushed relay (batch.map (·.outgoing.item)) after results accepted)
    {entry : PushItem × Nat} (member : entry ∈ accepted) :
    ∃ row ∈ rows, ∃ record, row.outgoing.item = entry.1 ∧ OfferedOk P keys log latest row record ∧
      openRecord P keys (entry.1.envelope entry.2) = .ok record := by
  obtain ⟨row, inBatch, same⟩ := List.mem_map.mp (pushed.offered entry member)
  obtain ⟨record, offered⟩ := ok.each row (part.subset inBatch)
  obtain ⟨nonce, item⟩ := offered.item
  refine ⟨row, part.subset inBatch, record, same, offered, ?_⟩
  rw [← same, item]
  exact openRecord_encodeRecord ideal record _ _ _

/-- An accepted revision of a host does not lose to what the log had of it. -/
theorem added_beats_logged (ideal : P.Ideal) (explained : LogOk P keys log relay)
    (ok : OfferOk P keys log relay.latestSeq rows) (part : batch.Sublist rows)
    (pushed : Chain.Pushed relay (batch.map (·.outgoing.item)) after results accepted)
    {earlier : Envelope} {old new : Record} {entry : PushItem × Nat} (logged : earlier ∈ log)
    (openedOld : openRecord P keys earlier = .ok old) (member : entry ∈ accepted)
    (openedNew : openRecord P keys (entry.1.envelope entry.2) = .ok new) (ids : old.id = new.id) :
    old.stamp ≤ new.stamp := by
  obtain ⟨row, _, record, item, offered, opened⟩ := addedRows_offered ideal ok part pushed member
  cases openedNew.symm.trans opened
  -- The relay compared the base with the current row, which is no older than `earlier`.
  obtain ⟨host, openedHost, typed⟩ := explained.opens earlier logged
  cases openedOld.symm.trans openedHost
  have hash : earlier.idHash = entry.1.idHash := by
    have hashOld := (openRecord_ok openedOld).2.1
    have hashNew := (openRecord_ok openedNew).2.1
    rw [typed.kind, ids] at hashOld
    rw [offered.host.kind] at hashNew
    exact hashOld.trans hashNew.symm
  obtain ⟨current, stored, newer⟩ := explained.newest earlier logged
  have unopposed := pushed.unopposed entry member current (hash ▸ stored)
  exact offered.covers earlier logged old openedOld ids (by rw [item]; omega)

theorem LogOk.push (ideal : P.Ideal) (explained : LogOk P keys log relay)
    (ok : OfferOk P keys log relay.latestSeq rows) (part : batch.Sublist rows)
    (pushed : Chain.Pushed relay (batch.map (·.outgoing.item)) after results accepted) :
    LogOk P keys (log ++ addedRows accepted) after where
  opens entry member := by
    rcases List.mem_append.mp member with member | member
    · exact explained.opens entry member
    · obtain ⟨added, inAccepted, rfl⟩ := List.mem_map.mp member
      obtain ⟨_, _, record, _, offered, opened⟩ := addedRows_offered ideal ok part pushed inAccepted
      exact ⟨record, opened, offered.host⟩
  range entry member := by
    rcases List.mem_append.mp member with member | member
    · have := explained.range entry member
      have := pushed.grows
      omega
    · obtain ⟨added, inAccepted, rfl⟩ := List.mem_map.mp member
      have := pushed.range added inAccepted
      show 0 < added.2 ∧ added.2 ≤ after.latestSeq
      omega
  grows earlier memberA later memberB old new openedOld openedNew ids order := by
    rcases List.mem_append.mp memberA with inLog | added
    · rcases List.mem_append.mp memberB with inLogB | addedB
      · exact explained.grows earlier inLog later inLogB old new openedOld openedNew ids order
      · obtain ⟨entry, inAccepted, rfl⟩ := List.mem_map.mp addedB
        exact added_beats_logged ideal explained ok part pushed inLog openedOld inAccepted openedNew ids
    · obtain ⟨entryA, inAcceptedA, rfl⟩ := List.mem_map.mp added
      rcases List.mem_append.mp memberB with inLogB | addedB
      · -- A logged row does not come after an added one.
        have newer := (pushed.range entryA inAcceptedA).1
        have older := (explained.range later inLogB).2
        have : entryA.2 ≤ later.seq := order
        omega
      · obtain ⟨entryB, inAcceptedB, rfl⟩ := List.mem_map.mp addedB
        obtain ⟨_, _, recordA, _, offeredA, openedA⟩ := addedRows_offered ideal ok part pushed inAcceptedA
        obtain ⟨_, _, recordB, _, offeredB, openedB⟩ := addedRows_offered ideal ok part pushed inAcceptedB
        cases openedOld.symm.trans openedA
        cases openedNew.symm.trans openedB
        have hash : entryA.1.idHash = entryB.1.idHash := by
          have hashA := (openRecord_ok openedOld).2.1
          have hashB := (openRecord_ok openedNew).2.1
          rw [offeredA.host.kind, ids] at hashA
          rw [offeredB.host.kind] at hashB
          exact hashA.trans hashB.symm
        -- One hash keeps one row.
        have writtenA := pushed.written entryA inAcceptedA
        have writtenB := pushed.written entryB inAcceptedB
        rw [hash, writtenB] at writtenA
        rw [Option.some.inj writtenA, openedOld] at openedNew
        cases openedNew
        exact le_refl _
  stored hash row found := by
    by_cases written : ∃ entry ∈ accepted, entry.1.idHash = hash
    · obtain ⟨entry, inAccepted, rfl⟩ := written
      cases (pushed.written entry inAccepted).symm.trans found
      exact ⟨List.mem_append_right _ (List.mem_map.mpr ⟨entry, inAccepted, rfl⟩), rfl⟩
    · rw [pushed.untouched hash fun entry member same => written ⟨entry, member, same⟩] at found
      obtain ⟨inLog, same⟩ := explained.stored hash row found
      exact ⟨List.mem_append_left _ inLog, same⟩
  newest entry member := by
    rcases List.mem_append.mp member with inLog | added
    · by_cases written : ∃ added ∈ accepted, added.1.idHash = entry.idHash
      · obtain ⟨added, inAccepted, same⟩ := written
        refine ⟨_, same ▸ pushed.written added inAccepted, ?_⟩
        have newer := (pushed.range added inAccepted).1
        have older := (explained.range entry inLog).2
        show entry.seq ≤ added.2
        omega
      · obtain ⟨row, found, newer⟩ := explained.newest entry inLog
        refine ⟨row, ?_, newer⟩
        rw [pushed.untouched _ fun added member same => written ⟨added, member, same⟩]
        exact found
    · obtain ⟨new, inAccepted, rfl⟩ := List.mem_map.mp added
      exact ⟨_, pushed.written new inAccepted, le_refl _⟩

theorem ReceiptOk.push (ideal : P.Ideal) (ok : OfferOk P keys log relay.latestSeq rows)
    (part : batch.Sublist rows)
    (pushed : Chain.Pushed relay (batch.map (·.outgoing.item)) after results accepted) :
    ReceiptOk P keys (log ++ addedRows accepted) rows (collectAccepted batch results) := by
  intro key seq member
  obtain ⟨⟨row, result⟩, zipped, made⟩ := List.mem_filterMap.mp member
  cases result with
  | conflict current => cases made
  | ok seq =>
    cases made
    have answered := pushed.answered row.outgoing.item seq (by
      rw [List.zip_map_left]
      exact List.mem_map.mpr ⟨_, zipped, rfl⟩)
    have inRows := part.subset (List.of_mem_zip zipped).1
    obtain ⟨record, offered⟩ := ok.each row inRows
    obtain ⟨nonce, item⟩ := offered.item
    refine ⟨row, inRows, rfl, record, offered.expected, row.outgoing.item.envelope seq,
      List.mem_append_right _ (List.mem_map.mpr ⟨_, answered, rfl⟩), rfl, ?_⟩
    rw [item]
    exact openRecord_encodeRecord ideal record _ _ _

theorem Tracked.push (ideal : P.Ideal) {world : World} {device : String}
    (tracked : Tracked P keys log world) (sent : (device, rows) ∈ world.offers)
    (part : batch.Sublist rows)
    (pushed : Chain.Pushed world.relay (batch.map (·.outgoing.item)) after results accepted) :
    Tracked P keys (log ++ addedRows accepted)
      { world with
        relay := after, receipts := (device, rows, collectAccepted batch results) :: world.receipts } := by
  have ok := tracked.offers device rows sent
  have behind : ∀ entry ∈ addedRows accepted, world.relay.latestSeq < entry.seq := by
    intro entry member
    obtain ⟨added, inAccepted, rfl⟩ := List.mem_map.mp member
    exact (pushed.range added inAccepted).1
  -- What the relay now stores was offered before.
  have kept : ∀ record, Revision P keys (log ++ addedRows accepted)
      { world with
        relay := after, receipts := (device, rows, collectAccepted batch results) :: world.receipts } record →
      Revision P keys log world record := by
    intro record revision
    cases revision with
    | logged member opened =>
      rcases List.mem_append.mp member with inLog | added
      · exact .logged inLog opened
      · obtain ⟨entry, inAccepted, rfl⟩ := List.mem_map.mp added
        obtain ⟨row, inRows, other, _, offered, openedOther⟩ :=
          addedRows_offered ideal ok part pushed inAccepted
        cases opened.symm.trans openedOther
        exact .offered sent inRows offered.expected
    | held found => exact .held found
    | offered sentOther member expected => exact .offered sentOther member expected
  exact
    { explained := tracked.explained.push ideal ok part pushed
      device := fun other => (tracked.device other).extend tracked.explained behind pushed.grows
      pulls := fun other since response member =>
        (tracked.pulls other since response member).extend behind pushed.grows
      offers := fun other rows member => (tracked.offers other rows member).extend behind pushed.grows
      receipts := by
        intro other rows' accepted' member
        rcases List.mem_cons.mp member with same | member
        · cases same
          exact ⟨sent, .push ideal ok part pushed⟩
        · obtain ⟨offered, receipt⟩ := tracked.receipts other rows' accepted' member
          exact ⟨offered, receipt.extend⟩
      unique := fun a b revisionA revisionB => tracked.unique a b (kept a revisionA) (kept b revisionB)
      authored := fun record revision => tracked.authored record (kept record revision) }

end Push

/-! ## Receipts -/

section Deliver
variable {log : List Envelope} {relay : Chain} {space : SpaceStateV3} {rows : List TypedOutgoing}

/-- The row a receipt speaks of is the one `find` returns. -/
theorem find_row {row : TypedOutgoing} (distinct : (rows.map (·.outgoing.key)).Nodup)
    (member : row ∈ rows) : rows.find? (fun other => other.outgoing.key == row.outgoing.key) = some row := by
  cases found : rows.find? (fun other => other.outgoing.key == row.outgoing.key) with
  | none => simpa using List.find?_eq_none.mp found row member
  | some other =>
    have same : other.outgoing.key = row.outgoing.key := by simpa using List.find?_some found
    rw [List.inj_on_of_nodup_map distinct (List.mem_of_find?_eq_some found) member same]

/-- One receipt: a section keeps its records and stays in order. -/
theorem applyReceipt_ok (explained : LogOk P keys log relay)
    (distinct : (rows.map (·.outgoing.key)).Nodup) {row : TypedOutgoing} (member : row ∈ rows)
    {record : Record} (expected : row.expected = .Public record) {entry : Envelope} (logged : entry ∈ log)
    (opened : openRecord P keys entry = .ok record)
    {sections : BTreeMap LocalRecord × BTreeMap SealedRecord}
    (ok : DeviceOk P keys log relay.latestSeq { space with records := sections.1, sealed := sections.2 }) :
    let after := applyReceipt rows sections (row.outgoing.key, entry.seq)
    DeviceOk P keys log relay.latestSeq { space with records := after.1, sealed := after.2 } ∧
      ∀ key : String, (after.1[key]?).map (·.record) = (sections.1[key]?).map (·.record) := by
  obtain ⟨records, sealed⟩ := sections
  simp only [applyReceipt, find_row distinct member, expected]
  split
  · exact ⟨ok, fun key => rfl⟩
  · cases held : records[row.outgoing.key]? with
    | none => exact ⟨ok, fun key => rfl⟩
    | some cached =>
      simp only
      split
      case isFalse => exact ⟨ok, fun key => rfl⟩
      rename_i applies
      simp only [Bool.and_eq_true, decide_eq_true_eq] at applies
      obtain ⟨⟨_, rfl⟩, behind⟩ := applies
      -- only the row the receipt is for changes, and that one keeps its record
      have lookup : ∀ (key : String) row', (records.insert row.outgoing.key
          { cached with seq := entry.seq, dirty := false })[key]? = some row' →
          key = row.outgoing.key ∧ row' = { cached with seq := entry.seq, dirty := false } ∨
            records[key]? = some row' := by
        intro key row' found
        rw [BTreeMap.get?_insert] at found
        split at found
        · rename_i same
          cases found
          exact .inl ⟨same.symm, rfl⟩
        · exact .inr found
      refine ⟨⟨ok.sealed, ?_, ?_, ?_, ?_, ok.cursor, ?_⟩, ?_⟩
      · intro key row' found
        rcases lookup key row' found with ⟨rfl, rfl⟩ | found
        · exact ok.rows _ cached held
        · exact ok.rows key row' found
      · intro key row' found
        rcases lookup key row' found with ⟨rfl, rfl⟩ | found
        · exact .inr ⟨entry, logged, cached.record, opened, rfl, rfl⟩
        · exact ok.origin key row' found
      · intro key row' found
        rcases lookup key row' found with ⟨rfl, rfl⟩ | found
        · exact explained.covers logged opened
        · exact ok.covers key row' found
      · intro key row' found clean
        rcases lookup key row' found with ⟨rfl, rfl⟩ | found
        · exact ⟨entry, logged, opened⟩
        · exact ok.clean key row' found clean
      · -- the receipt numbers the row no lower than the row it replaces, so nothing seen is lost
        intro other member' old openedOld below
        obtain ⟨row', found, newer⟩ := ok.seen other member' old openedOld below
        by_cases same : row.outgoing.key = recordKey .Host old.id
        · rw [← same]
          refine ⟨_, BTreeMap.get?_insert_self _ _ _, ?_⟩
          cases held.symm.trans (same ▸ found)
          exact le_trans newer behind
        · exact ⟨row', (BTreeMap.get?_insert_ne _ _ same).trans found, newer⟩
      · intro key
        by_cases same : row.outgoing.key = key
        · subst same
          simp only [BTreeMap.get?_insert_self, held, Option.map_some]
        · rw [BTreeMap.get?_insert_ne _ _ same]

theorem applyReceipts_ok (explained : LogOk P keys log relay)
    (distinct : (rows.map (·.outgoing.key)).Nodup) {pushed : Pushed}
    (receipt : ReceiptOk P keys log rows pushed) (ok : DeviceOk P keys log relay.latestSeq space) :
    DeviceOk P keys log relay.latestSeq (applySpaceReceipts space rows pushed) ∧
      ∀ key : String, ((applySpaceReceipts space rows pushed).records[key]?).map (·.record) =
        (space.records[key]?).map (·.record) := by
  obtain ⟨accepted⟩ := pushed
  simp only [applySpaceReceipts, applyReceipts]
  have start : DeviceOk P keys log relay.latestSeq
      { space with records := (space.records, space.sealed).1, sealed := (space.records, space.sealed).2 } := ok
  have same : ∀ key : String, ((space.records, space.sealed).1[key]?).map (·.record) =
      (space.records[key]?).map (·.record) := fun key => rfl
  revert start same
  generalize (space.records, space.sealed) = sections
  induction accepted generalizing sections with
  | nil => exact fun start same => ⟨start, same⟩
  | cons head rest ih =>
    intro start same
    obtain ⟨key, seq⟩ := head
    obtain ⟨row, member, rfl, record, expected, entry, logged, rfl, opened⟩ :=
      receipt key seq List.mem_cons_self
    obtain ⟨ok', kept⟩ := applyReceipt_ok explained distinct member expected logged opened start
    rw [List.foldl_cons]
    refine ih (fun key seq inRest => receipt key seq (List.mem_cons_of_mem _ inRest)) _ ok' ?_
    intro key
    exact (kept key).trans (same key)

theorem Tracked.deliver {world : World} {device : String} {pushed : Pushed}
    (tracked : Tracked P keys log world) (sent : (device, rows, pushed) ∈ world.receipts) :
    Tracked P keys log
      (world.setDevice device (applySpaceReceipts (world.device device) rows pushed)) := by
  obtain ⟨offered, receipt⟩ := tracked.receipts device rows pushed sent
  obtain ⟨ok, kept⟩ := applyReceipts_ok tracked.explained (tracked.offers device rows offered).distinct
    receipt (tracked.device device)
  refine tracked.setDevice ok ?_ ?_
  · intro key row found
    have same := kept key
    rw [found, Option.map_some, Option.map_eq_some_iff] at same
    obtain ⟨row', found', records⟩ := same
    exact ⟨row', found', by rw [records]⟩
  · intro key row found
    have same := kept key
    rw [found, Option.map_some, eq_comm, Option.map_eq_some_iff] at same
    obtain ⟨old, held, records⟩ := same
    rw [← records]
    exact .inl (.held held)

end Deliver

/-! ## Runs -/

theorem Tracked.step (ideal : P.Ideal) {participants : Set String} {log : List Envelope}
    {world world' : World} (tracked : Tracked P keys log world)
    (step : Exchange P keys participants world world') :
    ∃ more, Tracked P keys (log ++ more) world' := by
  cases step with
  | edit _ cached ordered valid => exact ⟨[], by simpa using tracked.edit cached ordered valid⟩
  | pull since _ => exact ⟨[], by simpa using tracked.pull _ since⟩
  | merge sent => exact ⟨[], by simpa using tracked.merge ideal sent⟩
  | offer _ collected => exact ⟨[], by simpa using tracked.offer collected⟩
  | push sent part pushed =>
    obtain ⟨accepted, spec⟩ :=
      Chain.push_pushed ((tracked.offers _ _ sent).hashes_nodup ideal part) pushed
    exact ⟨_, tracked.push ideal sent part spec⟩
  | deliver sent => exact ⟨[], by simpa using tracked.deliver sent⟩

theorem Reached.tracked (ideal : P.Ideal) {participants : Set String} {tokenHash : String}
    {world : World} (reached : Reached P keys participants tokenHash world) :
    ∃ log, Tracked P keys log world := by
  induction reached with
  | refl => exact ⟨[], tracked_initial tokenHash⟩
  | tail _ step ih =>
    obtain ⟨log, tracked⟩ := ih
    obtain ⟨more, tracked'⟩ := tracked.step ideal step
    exact ⟨_, tracked'⟩

/-! ## The relay never goes back -/

/-- The row `new` may stand in the place of `old`: the same revision of the same record, or
one that wins over it. -/
def Supersedes (P : Primitives) (keys : ChainKeys) (new old : Envelope) : Prop :=
  ∃ newRecord oldRecord, openRecord P keys new = .ok newRecord ∧ openRecord P keys old = .ok oldRecord ∧
    newRecord.kind = oldRecord.kind ∧ newRecord.id = oldRecord.id ∧
    (newRecord = oldRecord ∨
      ∀ dirty, merge (some { record := oldRecord, seq := old.seq, dirty }) newRecord ≠ .KeepLocal)

theorem Tracked.supersedes (ideal : P.Ideal) {log more : List Envelope} {world world' : World}
    (tracked : Tracked P keys log world) (tracked' : Tracked P keys (log ++ more) world')
    {hash : String} {row : Envelope} (found : world.relay.rows[hash]? = some row) :
    ∃ row', world'.relay.rows[hash]? = some row' ∧ Supersedes P keys row' row := by
  obtain ⟨inLog, rfl⟩ := tracked.explained.stored hash row found
  have inLog' := List.mem_append_left more inLog
  obtain ⟨row', found', newer⟩ := tracked'.explained.newest row inLog'
  obtain ⟨logged, hash'⟩ := tracked'.explained.stored _ row' found'
  obtain ⟨old, openedOld, hostOld⟩ := tracked'.explained.opens row inLog'
  obtain ⟨new, openedNew, hostNew⟩ := tracked'.explained.opens row' logged
  have ids := id_eq_of_idHash ideal openedNew openedOld hash'
  have order := tracked'.explained.grows row inLog' row' logged old new openedOld openedNew ids.symm newer
  refine ⟨row', found', new, old, openedNew, openedOld, hostNew.kind.trans hostOld.kind.symm, ids, ?_⟩
  rcases eq_or_lt_of_le order with same | wins
  · exact .inl (tracked'.unique new old (.logged logged openedNew) (.logged inLog' openedOld) ids same.symm)
  · exact .inr fun dirty => merge_ne_keepLocal_iff.mpr wins

/-! ## Devices at rest -/

/-- Nothing waits to be sent and the cursor is at the relay's latest number. -/
structure SpaceStateV3.Settled (space : SpaceStateV3) (relay : Chain) : Prop where
  records : ∀ (key : String) row, space.records[key]? = some row → row.dirty = false
  sealed : ∀ (key : String) row, space.sealed[key]? = some row → row.dirty = false
  cursor : space.cursorSeq = relay.latestSeq

/-- The relay's row of a host is the last word on it. -/
theorem Tracked.settled_row {log : List Envelope} {world : World} (tracked : Tracked P keys log world)
    {device : String} (settled : (world.device device).Settled world.relay) {key : String}
    {row : LocalRecord} (found : (world.device device).records[key]? = some row)
    {last : Envelope} {record : Record} (stored : world.relay.rows[last.idHash]? = some last)
    (opened : openRecord P keys last = .ok record) (ids : record.id = row.record.id) :
    row = { record, seq := last.seq, dirty := false } := by
  have ok := tracked.device device
  have explained := tracked.explained
  obtain ⟨inLog, _⟩ := explained.stored _ last stored
  have hostHash : ∀ entry ∈ log, ∀ other, openRecord P keys entry = .ok other → other.id = record.id →
      entry.seq ≤ last.seq := by
    intro entry member other openedOther same
    obtain ⟨row', stored', newer⟩ := explained.newest entry member
    obtain ⟨_, openedA, hostA⟩ := explained.opens entry member
    obtain ⟨_, openedB, hostB⟩ := explained.opens last inLog
    cases openedOther.symm.trans openedA
    cases opened.symm.trans openedB
    have hashA := (openRecord_ok openedOther).2.1
    have hashB := (openRecord_ok opened).2.1
    rw [hostA.kind, same, ← hostB.kind, ← hashB] at hashA
    rw [hashA, stored] at stored'
    cases stored'
    exact newer
  have dirty := settled.records key row found
  -- The device has seen the last row, and its number is the one of a logged row.
  have seen : last.seq ≤ row.seq := by
    have reachable : last.seq ≤ (world.device device).cursorSeq := by
      rw [settled.cursor]
      exact (explained.range last inLog).2
    obtain ⟨row', held, newer⟩ := ok.seen last inLog record opened reachable
    rw [ids, ← (ok.rows key row found).1, found] at held
    cases held
    exact newer
  have numbered : row.seq ≤ last.seq := by
    rcases ok.origin key row found with zero | ⟨entry, member, other, openedOther, same, number⟩
    · omega
    · exact number ▸ hostHash entry member other openedOther (same.trans ids.symm)
  have revision : row.record = record := by
    obtain ⟨entry, member, openedRow⟩ := ok.clean key row found dirty
    have ahead := ok.covers key row found last inLog record opened ids seen
    have behind := explained.grows entry member last inLog row.record record openedRow opened ids.symm
      (hostHash entry member row.record openedRow ids.symm)
    exact tracked.unique _ _ (.held found) (.logged inLog opened) ids.symm (le_antisymm behind ahead)
  obtain ⟨_, _, _⟩ := row
  cases revision
  cases dirty
  cases le_antisymm numbered seen
  rfl

/-- A settled device holds what any other settled device holds. -/
theorem Tracked.settled_subset (ideal : P.Ideal) {log : List Envelope} {world : World}
    (tracked : Tracked P keys log world) {a b : String} (settledA : (world.device a).Settled world.relay)
    (settledB : (world.device b).Settled world.relay) {key : String} {row : LocalRecord}
    (found : (world.device a).records[key]? = some row) : (world.device b).records[key]? = some row := by
  have ok := tracked.device a
  have explained := tracked.explained
  obtain ⟨entry, member, opened⟩ := ok.clean key row found (settledA.records key row found)
  obtain ⟨last, stored, _⟩ := explained.newest entry member
  obtain ⟨inLog, hash⟩ := explained.stored _ last stored
  obtain ⟨record, openedLast, _⟩ := explained.opens last inLog
  have ids := id_eq_of_idHash ideal openedLast opened hash
  have reachable : last.seq ≤ (world.device b).cursorSeq := by
    rw [settledB.cursor]
    exact (explained.range last inLog).2
  obtain ⟨other, held, _⟩ := (tracked.device b).seen last inLog record openedLast reachable
  have otherIds := (recordKey_injective ((tracked.device b).rows _ other held).1).2
  rw [← hash] at stored
  rw [(ok.rows key row found).1, ← ids, held, tracked.settled_row settledA found stored openedLast ids,
    tracked.settled_row settledB held stored openedLast otherIds]

/-- However edits, pulls, merges, pushes and receipts of any devices interleave: a relay row
is only ever replaced by the same revision or one that wins over it, and devices with nothing
to send and nothing to pull hold the same records. -/
theorem exchange_never_regresses_and_converges (ideal : P.Ideal) {participants : Set String}
    {tokenHash : String} {world : World} (reached : Reached P keys participants tokenHash world) :
    (∀ world', Exchange P keys participants world world' →
      ∀ (hash : String) (row : Envelope), world.relay.rows[hash]? = some row →
        ∃ row', world'.relay.rows[hash]? = some row' ∧ Supersedes P keys row' row) ∧
    ((∀ device ∈ participants, (world.device device).Settled world.relay) →
      ∀ a ∈ participants, ∀ b ∈ participants, (world.device a).records = (world.device b).records) := by
  obtain ⟨log, tracked⟩ := reached.tracked ideal
  constructor
  · intro world' step hash row found
    obtain ⟨more, tracked'⟩ := tracked.step ideal step
    exact tracked.supersedes ideal tracked' found
  · intro settled a memberA b memberB
    refine BTreeMap.ext fun key => Option.ext fun row => ?_
    exact ⟨fun found => tracked.settled_subset ideal (settled a memberA) (settled b memberB) found,
      fun found => tracked.settled_subset ideal (settled b memberB) (settled a memberA) found⟩

end

/-! ## A run

One device adds a host and sends it, both fetch it and are at rest; then the other device
changes the host and sends that. -/

/-- Whether a section has nothing to send and nothing to pull. -/
def SpaceStateV3.atRest (space : SpaceStateV3) (relay : Chain) : Bool :=
  space.records.toList.all (fun entry => !entry.2.dirty) && space.sealed.toList.all (fun entry => !entry.2.dirty) &&
    space.cursorSeq == relay.latestSeq

theorem SpaceStateV3.settled_of_atRest {space : SpaceStateV3} {relay : Chain} (rest : space.atRest relay = true) :
    space.Settled relay := by
  simp only [atRest, Bool.and_eq_true, List.all_eq_true, Bool.not_eq_true', beq_iff_eq] at rest
  obtain ⟨⟨records, sealed⟩, cursor⟩ := rest
  exact
    { records := fun key row found => records (key, row) (BTreeMap.mem_toList.mpr found)
      sealed := fun key row found => sealed (key, row) (BTreeMap.mem_toList.mpr found)
      cursor }

namespace Sample

def primitivesOfRun : Primitives :=
  namedPrimitives [("host\n" ++ hostId, "1")]
    [("1", (host 1 5 device).toJson), ("2", (host 2 9 otherDevice).toJson)]

theorem primitivesOfRun_ideal : primitivesOfRun.Ideal := by
  refine namedPrimitives_ideal ⟨?_, ?_, ?_, ?_, ?_⟩
  all_goals decide +kernel

/-- The set a device offers when its host waits to be sent over the base `seq`. -/
def offerOf (record : Record) (seq : Nat) : List TypedOutgoing :=
  [{ outgoing :=
       { key := recordKey .Host hostId, item := encodeRecord primitivesOfRun keys record seq "n"
         version := record.version, updatedAtMs := record.updatedAtMs }
     expected := .Public record }]

def edit (world : World) (author : String) (record : Record) : World :=
  world.setDevice author ((world.device author).edited keys.chainId record)

def offer (world : World) (author : String) (rows : List TypedOutgoing) : World :=
  { world with offers := (author, rows) :: world.offers }

/-- The relay took the whole set as number `seq`. -/
def push (world : World) (author : String) (rows : List TypedOutgoing) (seq : Nat) : World :=
  { world with
    relay := { world.relay with
      latestSeq := seq
      rows := rows.foldl (fun stored row => stored.insert row.outgoing.item.idHash (row.outgoing.item.envelope seq))
        world.relay.rows }
    receipts := (author, rows, collectAccepted rows (rows.map fun _ => .ok seq)) :: world.receipts }

def deliver (world : World) (author : String) (rows : List TypedOutgoing) (seq : Nat) : World :=
  world.setDevice author
    (applySpaceReceipts (world.device author) rows (collectAccepted rows (rows.map fun _ => .ok seq)))

/-- A pull from the beginning and its merge. -/
def fetch (world : World) (reader : String) : World :=
  let asked := { world with pulls := (reader, 0, world.relay.pull 0) :: world.pulls }
  asked.setDevice reader
    (mergeSpace primitivesOfRun keys (asked.device reader) (world.relay.pull 0) 0 .Compatible).section_

def joined : World := fetch (.initial token) device

def added : World := edit joined device (host 1 5 device)

def sent : World := push (offer added device (offerOf (host 1 5 device) 0)) device (offerOf (host 1 5 device) 0) 1

/-- Both devices have fetched the row. -/
def exchanged : World :=
  fetch (fetch (deliver sent device (offerOf (host 1 5 device) 0) 1) device) otherDevice

/-- The other device has changed the host and offers it. -/
def changed : World :=
  offer (edit exchanged otherDevice (host 2 9 otherDevice)) otherDevice (offerOf (host 2 9 otherDevice) 1)

def resent : World := push changed otherDevice (offerOf (host 2 9 otherDevice) 1) 2

/-- What the relay holds of the host after the first push. -/
def firstRow : Envelope := (encodeRecord primitivesOfRun keys (host 1 5 device) 0 "n").envelope 1

abbrev Step : World → World → Prop := Exchange primitivesOfRun keys {device, otherDevice}

theorem step_fetch {world : World} {reader : String} (member : reader ∈ ({device, otherDevice} : Set String)) :
    Relation.ReflTransGen Step world (fetch world reader) :=
  .tail (.single (.pull 0 member)) (.merge List.mem_cons_self)

theorem step_edit {world : World} {author : String} {record : Record} (now : Nat) (previous : List Record)
    (member : author ∈ ({device, otherDevice} : Set String))
    (cached : (world.device author).records[recordKey .Host hostId]?.map (·.record) = previous.head?)
    (ordered : orderedRecord author hostId hostPayload.toJson false now previous = .ok record)
    (valid : validPublic primitivesOfRun keys record false = true) : Step world (edit world author record) := by
  refine .edit member (fun row found => ?_) ordered valid
  rw [found] at cached
  exact List.mem_of_mem_head? (Option.mem_def.mpr cached.symm)

theorem exchanged_reached : Reached primitivesOfRun keys {device, otherDevice} token exchanged := by
  have author : device ∈ ({device, otherDevice} : Set String) := .inl rfl
  have edited : Step joined added := step_edit 5 [] author (by decide +kernel) rfl (by decide +kernel)
  have collected : spaceOutgoing primitivesOfRun keys (added.device device) .Compatible (fun _ => "n") =
      .ok (offerOf (host 1 5 device) 0) := by decide +kernel
  have offered : Step added (offer added device (offerOf (host 1 5 device) 0)) := .offer author collected
  have pushed : Step (offer added device (offerOf (host 1 5 device) 0)) sent :=
    .push List.mem_cons_self (List.Sublist.refl _) (by decide +kernel)
  have delivered : Step sent (deliver sent device (offerOf (host 1 5 device) 0) 1) := .deliver List.mem_cons_self
  have first : Relation.ReflTransGen Step (.initial token) (deliver sent device (offerOf (host 1 5 device) 0) 1) :=
    .tail (.tail (.tail (.tail (step_fetch author) edited) offered) pushed) delivered
  exact (first.trans (step_fetch author)).trans (step_fetch (.inr rfl))

theorem changed_reached : Reached primitivesOfRun keys {device, otherDevice} token changed := by
  have author : otherDevice ∈ ({device, otherDevice} : Set String) := .inr rfl
  have edited : Step exchanged (edit exchanged otherDevice (host 2 9 otherDevice)) :=
    step_edit 9 [host 1 5 device] author (by decide +kernel) rfl (by decide +kernel)
  have collected : spaceOutgoing primitivesOfRun keys
      ((edit exchanged otherDevice (host 2 9 otherDevice)).device otherDevice) .Compatible (fun _ => "n") =
      .ok (offerOf (host 2 9 otherDevice) 1) := by decide +kernel
  have offered : Step (edit exchanged otherDevice (host 2 9 otherDevice)) changed := .offer author collected
  exact .tail (.tail exchanged_reached edited) offered

theorem step_resent : Step changed resent :=
  .push List.mem_cons_self (List.Sublist.refl _) (by decide +kernel)

end Sample

open Sample in
/-- After the first round both devices are at rest and hold the host; the second push
replaces the relay's row by the one that wins over it. -/
theorem exchange_of_two_devices :
    Reached primitivesOfRun keys {device, otherDevice} token exchanged ∧
    (∀ reader ∈ ({device, otherDevice} : Set String), (exchanged.device reader).Settled exchanged.relay) ∧
    (exchanged.device device).records = (exchanged.device otherDevice).records ∧
    (exchanged.device device).records[recordKey .Host hostId]? =
      some { record := host 1 5 device, seq := 1, dirty := false } ∧
    changed.relay.rows["1"]? = some firstRow ∧ Step changed resent ∧
    ∃ row', resent.relay.rows["1"]? = some row' ∧ row' ≠ firstRow ∧
      Supersedes primitivesOfRun keys row' firstRow := by
  obtain ⟨_, converges⟩ := exchange_never_regresses_and_converges primitivesOfRun_ideal exchanged_reached
  obtain ⟨regresses, _⟩ := exchange_never_regresses_and_converges primitivesOfRun_ideal changed_reached
  have settled : ∀ reader ∈ ({device, otherDevice} : Set String), (exchanged.device reader).Settled exchanged.relay := by
    intro reader member
    obtain same | same := member
    all_goals
      rw [same]
      exact SpaceStateV3.settled_of_atRest (by decide +kernel)
  have held : changed.relay.rows["1"]? = some firstRow := by decide +kernel
  obtain ⟨row', found, wins⟩ := regresses resent step_resent "1" firstRow held
  refine ⟨exchanged_reached, settled, converges settled device (.inl rfl) otherDevice (.inr rfl), by decide +kernel,
    held, step_resent, row', found, ?_, wins⟩
  rintro rfl
  have numbered : resent.relay.rows["1"]?.map (·.seq) = some 2 := by decide +kernel
  rw [found] at numbered
  contradiction

end Sshelter.Sync
