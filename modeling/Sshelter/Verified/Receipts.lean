import Sshelter.Verified.Convergence
import Sshelter.Verified.ReviewOutgoing

/-! # What receipts may change

The section that receives the receipts of a push is not the one the push was collected from:
edits and merges run while the push is in flight.  Nothing is assumed here of the section the
receipts meet.  One receipt either leaves it alone or settles one dirty row that still is the
revision that was offered; every statement about a whole list follows from that.
-/

namespace Sshelter.Sync

/-! ## Settling one row -/

section Settling
variable {α γ : Type} {dirty : α → Bool} {seq : α → Nat} {content : α → γ} {offered : α → Nat → Prop}

/-- What receipts do to one row: a clean row and a row that stays dirty are left alone, and
a dirty row becomes clean only if this revision was `offered` and given the number it now has. -/
structure ReceiptSettles (dirty : α → Bool) (seq : α → Nat) (content : α → γ) (offered : α → Nat → Prop)
    (old new : α) : Prop where
  same : content new = content old
  forward : seq old ≤ seq new
  clean : dirty old = false → new = old
  kept : dirty new = true → new = old
  settled : dirty old = true → dirty new = false → offered old (seq new)

theorem ReceiptSettles.refl (row : α) : ReceiptSettles dirty seq content offered row row where
  same := rfl
  forward := Nat.le_refl _
  clean := fun _ => rfl
  kept := fun _ => rfl
  settled := fun held clean => absurd (held.symm.trans clean) (by decide)

theorem ReceiptSettles.trans {a b c : α} (first : ReceiptSettles dirty seq content offered a b)
    (second : ReceiptSettles dirty seq content offered b c) : ReceiptSettles dirty seq content offered a c where
  same := second.same.trans first.same
  forward := Nat.le_trans first.forward second.forward
  clean := by
    intro clean
    obtain rfl := first.clean clean
    exact second.clean clean
  kept := by
    intro held
    obtain rfl := second.kept held
    exact first.kept held
  settled := by
    intro held clean
    -- the step that cleared the flag is the one that saw the offer
    cases middle : dirty b with
    | false =>
      obtain rfl := second.clean middle
      exact first.settled held clean
    | true =>
      obtain rfl := first.kept middle
      exact second.settled held clean

theorem rel_refl {R : α → α → Prop} (refl : ∀ a, R a a) (row : Option α) : Option.Rel R row row := by
  cases row with
  | none => exact .none
  | some row => exact .some (refl row)

theorem rel_trans {R : α → α → Prop} (trans : ∀ a b c, R a b → R b c → R a c) {a b c : Option α}
    (first : Option.Rel R a b) (second : Option.Rel R b c) : Option.Rel R a c := by
  cases first with
  | none =>
    cases second
    exact .none
  | some step =>
    cases second with
    | some next => exact .some (trans _ _ _ step next)

theorem rel_some_right {R : α → α → Prop} {a b : Option α} {new : α} (related : Option.Rel R a b)
    (found : b = some new) : ∃ old, a = some old ∧ R old new := by
  cases related with
  | none => cases found
  | some step =>
    cases found
    exact ⟨_, rfl, step⟩

/-- A map in which one row was replaced by a related one. -/
theorem rel_insert {R : String → α → α → Prop} (refl : ∀ key a, R key a a) {m : BTreeMap α}
    {key : String} {old new : α} (found : m[key]? = some old) (related : R key old new)
    (other : String) : Option.Rel (R other) m[other]? (m.insert key new)[other]? := by
  by_cases same : key = other
  · subst same
    rw [found, BTreeMap.get?_insert_self]
    exact .some related
  · rw [BTreeMap.get?_insert_ne _ _ same]
    exact rel_refl (refl other) _

end Settling

/-! ## A section -/

/-- The records and the retained envelopes of an account or a space. -/
abbrev Sections := BTreeMap LocalRecord × BTreeMap SealedRecord

/-- The row's full record was offered under its key, and the answer gave it `seq`. -/
def OfferedRow (sent : List TypedOutgoing) (accepted : List (String × Nat)) (key : String)
    (row : LocalRecord) (seq : Nat) : Prop :=
  (key, seq) ∈ accepted ∧
    ∃ offer ∈ sent, offer.outgoing.key = key ∧ offer.expected = .Public row.record

/-- The row's ciphertext was offered under its key, and the answer gave it `seq`. -/
def OfferedEnvelope (sent : List TypedOutgoing) (accepted : List (String × Nat)) (key : String)
    (row : SealedRecord) (seq : Nat) : Prop :=
  (key, seq) ∈ accepted ∧
    ∃ offer ∈ sent, offer.outgoing.key = key ∧
      ∃ expected, offer.expected = .Sealed expected ∧ sameCiphertext row.envelope expected = true

abbrev RowSettles := ReceiptSettles LocalRecord.dirty LocalRecord.seq LocalRecord.record

/-- Everything of a retained envelope but its number and its flag. -/
def SealedRecord.content (row : SealedRecord) : Envelope × Option VerifiedPublicIdentity :=
  ({ row.envelope with seq := 0 }, row.publicIdentity)

abbrev EnvelopeSettles := ReceiptSettles SealedRecord.dirty (·.envelope.seq) SealedRecord.content

/-- Rows correspond one to one, and each is at most settled. -/
structure SectionSettles (sent : List TypedOutgoing) (accepted : List (String × Nat))
    (before after : Sections) : Prop where
  records : ∀ key : String,
    Option.Rel (RowSettles (OfferedRow sent accepted key)) before.1[key]? after.1[key]?
  sealed : ∀ key : String,
    Option.Rel (EnvelopeSettles (OfferedEnvelope sent accepted key)) before.2[key]? after.2[key]?

section
variable {sent : List TypedOutgoing} {accepted : List (String × Nat)}

theorem SectionSettles.refl (sections : Sections) : SectionSettles sent accepted sections sections where
  records := fun _ => rel_refl ReceiptSettles.refl _
  sealed := fun _ => rel_refl ReceiptSettles.refl _

theorem SectionSettles.trans {before middle after : Sections}
    (first : SectionSettles sent accepted before middle)
    (second : SectionSettles sent accepted middle after) : SectionSettles sent accepted before after where
  records := fun key => rel_trans (fun _ _ _ => ReceiptSettles.trans) (first.records key) (second.records key)
  sealed := fun key => rel_trans (fun _ _ _ => ReceiptSettles.trans) (first.sealed key) (second.sealed key)

/-! ## One receipt -/

/-- The offer a receipt for `key` answers; its number is one the relay could have given. -/
def Answers (sent : List TypedOutgoing) (key : String) (seq : Nat) (expected : ExpectedRevision) : Prop :=
  ∃ offer, sent.find? (fun row => row.outgoing.key == key) = some offer ∧ offer.expected = expected ∧
    (seq == 0 || decide (MAX_RELAY_SEQ < seq) || decide (seq < offer.outgoing.item.baseSeq)) = false

/-- The dirty row at `key` that a receipt settles. -/
structure ReadyRow (sent : List TypedOutgoing) (records : BTreeMap LocalRecord) (key : String)
    (seq : Nat) (cached : LocalRecord) : Prop where
  found : records[key]? = some cached
  dirty : cached.dirty = true
  behind : cached.seq ≤ seq
  answers : Answers sent key seq (.Public cached.record)

structure ReadyEnvelope (sent : List TypedOutgoing) (sealed : BTreeMap SealedRecord) (key : String)
    (seq : Nat) (cached : SealedRecord) : Prop where
  found : sealed[key]? = some cached
  dirty : cached.dirty = true
  behind : cached.envelope.seq ≤ seq
  answers : ∃ expected, Answers sent key seq (.Sealed expected) ∧
    sameCiphertext cached.envelope expected = true

variable {sections : Sections} {key : String} {seq : Nat}

theorem applyReceipt_row {cached : LocalRecord} (ready : ReadyRow sent sections.1 key seq cached) :
    applyReceipt sent sections (key, seq) =
      (sections.1.insert key { cached with seq, dirty := false }, sections.2) := by
  obtain ⟨offer, named, expected, bounds⟩ := ready.answers
  simp [applyReceipt, named, bounds, expected, ready.found, ready.dirty, ready.behind]

theorem applyReceipt_envelope {cached : SealedRecord}
    (ready : ReadyEnvelope sent sections.2 key seq cached) :
    applyReceipt sent sections (key, seq) =
      (sections.1, sections.2.insert key
        { cached with envelope := { cached.envelope with seq }, dirty := false }) := by
  obtain ⟨envelope, ⟨offer, named, expected, bounds⟩, same⟩ := ready.answers
  simp [applyReceipt, named, bounds, expected, ready.found, ready.dirty, ready.behind, same]

/-- A receipt that settles no row changes nothing. -/
theorem applyReceipt_cases (sent : List TypedOutgoing) (sections : Sections) (key : String) (seq : Nat) :
    (∃ cached, ReadyRow sent sections.1 key seq cached) ∨
    (∃ cached, ReadyEnvelope sent sections.2 key seq cached) ∨
    applyReceipt sent sections (key, seq) = sections := by
  obtain ⟨records, sealed⟩ := sections
  cases named : sent.find? fun row => row.outgoing.key == key with
  | none => exact .inr (.inr (by simp [applyReceipt, named]))
  | some offer =>
    cases bounds : (seq == 0 || decide (MAX_RELAY_SEQ < seq) || decide (seq < offer.outgoing.item.baseSeq))
    case true => exact .inr (.inr (by simp [applyReceipt, named, bounds]))
    cases expected : offer.expected with
    | Public record =>
      cases held : records[key]? with
      | none => exact .inr (.inr (by simp [applyReceipt, named, expected, held]))
      | some cached =>
        by_cases applies : (cached.dirty = true ∧ cached.record = record) ∧ cached.seq ≤ seq
        · obtain ⟨⟨dirty, rfl⟩, behind⟩ := applies
          exact .inl ⟨cached, held, dirty, behind, offer, named, expected, bounds⟩
        · exact .inr (.inr (by simp [applyReceipt, named, expected, held, applies]))
    | Sealed envelope =>
      cases held : sealed[key]? with
      | none => exact .inr (.inr (by simp [applyReceipt, named, expected, held]))
      | some cached =>
        by_cases applies : (cached.dirty = true ∧ sameCiphertext cached.envelope envelope = true) ∧
            cached.envelope.seq ≤ seq
        · obtain ⟨⟨dirty, same⟩, behind⟩ := applies
          exact .inr (.inl ⟨cached, held, dirty, behind, envelope, ⟨offer, named, expected, bounds⟩, same⟩)
        · exact .inr (.inr (by simp [applyReceipt, named, expected, held, applies]))

/-- The offer a receipt answers is one of those sent under its key. -/
theorem Answers.mem {expected : ExpectedRevision} (answers : Answers sent key seq expected) :
    ∃ offer ∈ sent, offer.outgoing.key = key ∧ offer.expected = expected := by
  obtain ⟨offer, named, expects, _⟩ := answers
  exact ⟨offer, List.mem_of_find?_eq_some named, by simpa using List.find?_some named, expects⟩

theorem ReadyRow.settles {cached : LocalRecord} (ready : ReadyRow sent sections.1 key seq cached)
    (listed : (key, seq) ∈ accepted) :
    RowSettles (OfferedRow sent accepted key) cached { cached with seq, dirty := false } where
  same := rfl
  forward := ready.behind
  clean := fun clean => absurd (ready.dirty.symm.trans clean) Bool.true_eq_false_eq_False
  kept := fun held => absurd held Bool.false_ne_true
  settled := fun _ _ => ⟨listed, ready.answers.mem⟩

theorem ReadyEnvelope.settles {cached : SealedRecord}
    (ready : ReadyEnvelope sent sections.2 key seq cached) (listed : (key, seq) ∈ accepted) :
    EnvelopeSettles (OfferedEnvelope sent accepted key) cached
      { cached with envelope := { cached.envelope with seq }, dirty := false } where
  same := rfl
  forward := ready.behind
  clean := fun clean => absurd (ready.dirty.symm.trans clean) Bool.true_eq_false_eq_False
  kept := fun held => absurd held Bool.false_ne_true
  settled := by
    intro _ _
    obtain ⟨expected, answers, same⟩ := ready.answers
    obtain ⟨offer, member, keyed, expects⟩ := answers.mem
    exact ⟨listed, offer, member, keyed, expected, expects, same⟩

theorem applyReceipt_settles (listed : (key, seq) ∈ accepted) (sections : Sections) :
    SectionSettles sent accepted sections (applyReceipt sent sections (key, seq)) := by
  obtain ⟨cached, ready⟩ | ⟨cached, ready⟩ | same := applyReceipt_cases sent sections key seq
  · rw [applyReceipt_row ready]
    exact ⟨rel_insert (fun _ => ReceiptSettles.refl) ready.found (ready.settles listed),
      fun _ => rel_refl ReceiptSettles.refl _⟩
  · rw [applyReceipt_envelope ready]
    exact ⟨fun _ => rel_refl ReceiptSettles.refl _,
      rel_insert (fun _ => ReceiptSettles.refl) ready.found (ready.settles listed)⟩
  · rw [same]
    exact .refl sections

/-- A list of receipts, from any section. -/
theorem foldl_applyReceipt_settles (receipts : List (String × Nat)) (listed : receipts ⊆ accepted)
    (sections : Sections) :
    SectionSettles sent accepted sections (receipts.foldl (applyReceipt sent) sections) := by
  induction receipts generalizing sections with
  | nil => exact .refl sections
  | cons receipt rest ih =>
    obtain ⟨head, tail⟩ := List.cons_subset.mp listed
    exact (applyReceipt_settles head sections).trans (ih tail _)

/-! ## Receipts that arrive twice

A receipt is spent once there is no row left for it to settle.  It is spent after it was
applied, and no other receipt gives it work again: receipts never make a row dirty. -/

/-- No row is left for the receipt to settle. -/
def SpentReceipt (sent : List TypedOutgoing) (sections : Sections) (receipt : String × Nat) : Prop :=
  (∀ cached, ¬ ReadyRow sent sections.1 receipt.1 receipt.2 cached) ∧
    ∀ cached, ¬ ReadyEnvelope sent sections.2 receipt.1 receipt.2 cached

theorem SpentReceipt.applyReceipt {receipt : String × Nat} (spent : SpentReceipt sent sections receipt) :
    applyReceipt sent sections receipt = sections := by
  obtain ⟨cached, ready⟩ | ⟨cached, ready⟩ | same :=
    applyReceipt_cases sent sections receipt.1 receipt.2
  · exact absurd ready (spent.1 cached)
  · exact absurd ready (spent.2 cached)
  · exact same

theorem ReadyRow.before {later : Sections} {cached : LocalRecord}
    (ready : ReadyRow sent later.1 key seq cached)
    (settles : SectionSettles sent accepted sections later) :
    ReadyRow sent sections.1 key seq cached := by
  obtain ⟨old, found, row⟩ := rel_some_right (settles.records key) ready.found
  obtain rfl := row.kept ready.dirty
  exact { ready with found }

theorem ReadyEnvelope.before {later : Sections} {cached : SealedRecord}
    (ready : ReadyEnvelope sent later.2 key seq cached)
    (settles : SectionSettles sent accepted sections later) :
    ReadyEnvelope sent sections.2 key seq cached := by
  obtain ⟨old, found, row⟩ := rel_some_right (settles.sealed key) ready.found
  obtain rfl := row.kept ready.dirty
  exact { ready with found }

theorem SpentReceipt.later {later : Sections} {receipt : String × Nat} (spent : SpentReceipt sent sections receipt)
    (settles : SectionSettles sent accepted sections later) : SpentReceipt sent later receipt :=
  ⟨fun cached ready => spent.1 cached (ready.before settles),
    fun cached ready => spent.2 cached (ready.before settles)⟩

theorem spent_applyReceipt (sections : Sections) (receipt : String × Nat) :
    SpentReceipt sent (applyReceipt sent sections receipt) receipt := by
  obtain ⟨key, seq⟩ := receipt
  have settles : SectionSettles sent [(key, seq)] sections (applyReceipt sent sections (key, seq)) :=
    applyReceipt_settles (List.mem_singleton_self _) sections
  constructor
  · intro cached ready
    -- the row was ready before, so this receipt has just cleaned it
    have found := ready.found
    rw [applyReceipt_row (ready.before settles), BTreeMap.get?_insert_self] at found
    have dirty := ready.dirty
    rw [← Option.some.inj found] at dirty
    exact Bool.false_ne_true dirty
  · intro cached ready
    have found := ready.found
    rw [applyReceipt_envelope (ready.before settles), BTreeMap.get?_insert_self] at found
    have dirty := ready.dirty
    rw [← Option.some.inj found] at dirty
    exact Bool.false_ne_true dirty

theorem spent_foldl (receipts : List (String × Nat)) (sections : Sections) :
    ∀ receipt ∈ receipts, SpentReceipt sent (receipts.foldl (applyReceipt sent) sections) receipt := by
  induction receipts generalizing sections with
  | nil => exact fun receipt member => absurd member List.not_mem_nil
  | cons head rest ih =>
    intro receipt member
    rw [List.foldl_cons]
    obtain rfl | later := List.mem_cons.mp member
    · exact (spent_applyReceipt sections receipt).later
        (foldl_applyReceipt_settles rest (List.Subset.refl rest) _)
    · exact ih _ receipt later

theorem foldl_applyReceipt_of_spent {receipts : List (String × Nat)}
    (spent : ∀ receipt ∈ receipts, SpentReceipt sent sections receipt) :
    receipts.foldl (applyReceipt sent) sections = sections := by
  induction receipts with
  | nil => rfl
  | cons head rest ih =>
    rw [List.foldl_cons, (spent head List.mem_cons_self).applyReceipt]
    exact ih fun receipt member => spent receipt (List.mem_cons_of_mem _ member)

theorem applyReceipts_twice (records : BTreeMap LocalRecord) (sealed : BTreeMap SealedRecord)
    (sent : List TypedOutgoing) (pushed : Pushed) :
    let after := applyReceipts records sealed sent pushed
    applyReceipts after.1 after.2 sent pushed = after :=
  foldl_applyReceipt_of_spent (spent_foldl pushed.accepted (records, sealed))

end

/-! ## Receipts for what an earlier section offered -/

section
variable {P : Primitives} {keys : ChainKeys} {nonces : String → String} {sent : List TypedOutgoing}

/-- The offer was made for a dirty row of the section.  It expects exactly that revision, and
the item on the wire seals it. -/
inductive OfferOf (P : Primitives) (keys : ChainKeys) (nonces : String → String) (sections : Sections)
    (offer : TypedOutgoing) : Prop where
  | row (cached : LocalRecord) (found : sections.1[offer.outgoing.key]? = some cached)
      (dirty : cached.dirty = true) (expects : offer.expected = .Public cached.record)
      (item : offer.outgoing.item =
        encodeRecord P keys cached.record cached.seq (nonces offer.outgoing.key))
  | envelope (cached : SealedRecord) (found : sections.2[offer.outgoing.key]? = some cached)
      (dirty : cached.dirty = true) (expects : offer.expected = .Sealed cached.envelope)
      (item : offer.outgoing.item =
        { idHash := cached.envelope.idHash, kind := cached.envelope.kind
          nonce := cached.envelope.nonce, ciphertext := cached.envelope.ciphertext
          deleted := cached.envelope.deleted, baseSeq := cached.envelope.seq })

theorem outgoingSealed_spec {account : Bool} {key : String} {row : SealedRecord} {out : TypedOutgoing}
    (collected : outgoingSealed P keys account (key, row) = .ok out) :
    out.outgoing.key = key ∧ out.expected = .Sealed row.envelope ∧
      out.outgoing.item =
        { idHash := row.envelope.idHash, kind := row.envelope.kind, nonce := row.envelope.nonce
          ciphertext := row.envelope.ciphertext, deleted := row.envelope.deleted
          baseSeq := row.envelope.seq } := by
  simp only [outgoingSealed] at collected
  split at collected
  · cases collected
  · split at collected
    · cases collected
    · cases collected
      exact ⟨rfl, rfl, rfl⟩

theorem outgoing_offers {records : BTreeMap LocalRecord} {sealed : BTreeMap SealedRecord} {account : Bool}
    (collected : outgoing P keys records sealed account nonces = .ok sent) :
    ∀ offer ∈ sent, OfferOf P keys nonces (records, sealed) offer := by
  intro offer member
  simp only [outgoing, Result.bind_eq_ok] at collected
  obtain ⟨publicRows, publicly, sealedRows, sealedly, made⟩ := collected
  cases made
  obtain inPublic | inSealed := List.mem_append.mp member
  · obtain ⟨⟨key, row⟩, among, made⟩ := (Result.mem_mapM publicly).mp inPublic
    obtain ⟨inMap, dirty⟩ := List.mem_filter.mp among
    obtain ⟨_, keyed, item, expects⟩ := outgoingPublic_spec made
    subst keyed
    exact .row row (BTreeMap.mem_toList.mp inMap) dirty expects item
  · obtain ⟨⟨key, row⟩, among, made⟩ := (Result.mem_mapM sealedly).mp inSealed
    obtain ⟨inMap, dirty⟩ := List.mem_filter.mp among
    obtain ⟨keyed, expects, item⟩ := outgoingSealed_spec made
    subst keyed
    exact .envelope row (BTreeMap.mem_toList.mp inMap) dirty expects item

theorem accountOutgoing_offers {account : AccountState}
    (collected : accountOutgoing P keys account nonces = .ok sent) :
    ∀ offer ∈ sent, OfferOf P keys nonces (account.records, account.sealed) offer := by
  simp only [accountOutgoing] at collected
  split at collected
  · cases collected
  · exact outgoing_offers collected

theorem spaceOutgoing_offers {space : SpaceStateV3} {gate : AccountGate}
    (collected : spaceOutgoing P keys space gate nonces = .ok sent) :
    ∀ offer ∈ sent, OfferOf P keys nonces (space.records, space.sealed) offer := by
  simp only [spaceOutgoing] at collected
  split at collected
  · cases collected
  · exact outgoing_offers collected

end

/-- Receipts for a push, whatever happened to the section since the push was collected: only
dirty rows that still are the offered revision are settled, nothing else of the section
changes, and receipts that arrive again change nothing. -/
theorem receipts_settle_offered_revisions (P : Primitives) (keys : ChainKeys)
    (nonces : String → String) (sent : List TypedOutgoing) (pushed : Pushed) :
    (∀ earlier later : AccountState, accountOutgoing P keys earlier nonces = .ok sent →
      let after := applyAccountReceipts later sent pushed
      (∀ offer ∈ sent, OfferOf P keys nonces (earlier.records, earlier.sealed) offer) ∧
        SectionSettles sent pushed.accepted (later.records, later.sealed) (after.records, after.sealed) ∧
        { after with records := later.records, sealed := later.sealed } = later ∧
        applyAccountReceipts after sent pushed = after) ∧
    (∀ (earlier later : SpaceStateV3) (gate : AccountGate),
      spaceOutgoing P keys earlier gate nonces = .ok sent →
      let after := applySpaceReceipts later sent pushed
      (∀ offer ∈ sent, OfferOf P keys nonces (earlier.records, earlier.sealed) offer) ∧
        SectionSettles sent pushed.accepted (later.records, later.sealed) (after.records, after.sealed) ∧
        { after with records := later.records, sealed := later.sealed } = later ∧
        applySpaceReceipts after sent pushed = after) := by
  constructor
  · intro earlier later collected after
    refine ⟨accountOutgoing_offers collected, ?_, rfl, ?_⟩
    · exact foldl_applyReceipt_settles pushed.accepted (List.Subset.refl _) (later.records, later.sealed)
    · have twice := applyReceipts_twice later.records later.sealed sent pushed
      simp only [after, applyAccountReceipts, twice]
  · intro earlier later gate collected after
    refine ⟨spaceOutgoing_offers collected, ?_, rfl, ?_⟩
    · exact foldl_applyReceipt_settles pushed.accepted (List.Subset.refl _) (later.records, later.sealed)
    · have twice := applyReceipts_twice later.records later.sealed sent pushed
      simp only [after, applySpaceReceipts, twice]

namespace Sample

/-- What the space with one unsent host offers. -/
def unsentOffers : List TypedOutgoing :=
  ((spaceOutgoing reviewTable keys unsentSpace .Compatible id).toOption).getD []

/-- The host is edited once more while the push is in flight. -/
def reeditedSpace : SpaceStateV3 :=
  { unsentSpace with
    records := unsentSpace.records.insert (recordKey .Host hostId)
      { record := host 3 30 device, seq := 0, dirty := true } }

def unsentReceipt : Pushed := { accepted := [(recordKey .Host hostId, 5)] }

end Sample

/-- The receipt settles the host as it was offered and leaves the edited one to be sent. -/
theorem receipts_after_an_edit :
    applySpaceReceipts Sample.unsentSpace Sample.unsentOffers Sample.unsentReceipt ≠ Sample.unsentSpace ∧
      applySpaceReceipts Sample.reeditedSpace Sample.unsentOffers Sample.unsentReceipt =
        Sample.reeditedSpace ∧
      applySpaceReceipts
          (applySpaceReceipts Sample.unsentSpace Sample.unsentOffers Sample.unsentReceipt)
          Sample.unsentOffers Sample.unsentReceipt =
        applySpaceReceipts Sample.unsentSpace Sample.unsentOffers Sample.unsentReceipt := by
  have collected : spaceOutgoing Sample.reviewTable Sample.keys Sample.unsentSpace .Compatible id =
      .ok Sample.unsentOffers := by decide +kernel
  have settles := (receipts_settle_offered_revisions Sample.reviewTable Sample.keys id
    Sample.unsentOffers Sample.unsentReceipt).2 Sample.unsentSpace Sample.unsentSpace .Compatible collected
  refine ⟨by decide +kernel, by decide +kernel, settles.2.2.2⟩

end Sshelter.Sync
