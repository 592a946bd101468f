import Sshelter.Verified.HeldRevisions
import Sshelter.Verified.Planning
import Sshelter.Verified.SpaceText

/-! # A space file while a pull is merged

While a pull is merged, the cache and the items of the file change together: after every
record the file shows the cached text of every host, with its last line ended.  The order of
the blocks is that of the file, without the hosts that were removed, and then the hosts that
were added.
-/

namespace Sshelter.Sync.V2

open HostsFile Approval Config

variable {P : Primitives} {u : Text.UnicodeTables} {keys : ChainKeys} {applied : List HostBlockText}
  {deviceName : String → String}

/-! ## What a record does to the file -/

/-- The record's text goes to the file and to the cache. -/
structure Writes (P : Primitives) (u : Text.UnicodeTables) (keys : ChainKeys) (applied : List HostBlockText)
    (space : SpaceState) (env : Envelope) (record : Record) (text : String) : Prop where
  decoded : decodeHost P keys env = some record
  newer : space.Loses record
  live : record.deleted = false
  usable : hostText u record = some text
  fresh : space.losesEdit record = true ∨ space.seen record = false
  free : needsApproval u text.toList ((appliedText applied record.id).map String.toList) = false

/-- The record removes its host. -/
structure Removes (P : Primitives) (keys : ChainKeys) (space : SpaceState) (env : Envelope) (record : Record) :
    Prop where
  decoded : decodeHost P keys env = some record
  newer : space.Loses record
  dead : record.deleted = true

/-- The envelope changes the block of the alias. -/
def Touches (P : Primitives) (u : Text.UnicodeTables) (keys : ChainKeys) (applied : List HostBlockText)
    (space : SpaceState) (env : Envelope) (alias_ : String) : Prop :=
  ∃ record, record.id = alias_ ∧
    (Removes P keys space env record ∨ ∃ text, Writes P u keys applied space env record text)

theorem Touches.named {space : SpaceState} {env : Envelope} {alias_ : String} {record : Record}
    (touches : Touches P u keys applied space env alias_) (decoded : decodeHost P keys env = some record) :
    record.id = alias_ := by
  obtain ⟨found, rfl, removes | ⟨text, writes⟩⟩ := touches
  · rw [Option.some.inj (decoded.symm.trans removes.decoded)]
  · rw [Option.some.inj (decoded.symm.trans writes.decoded)]

/-- The ways an envelope moves the cache and the file. -/
inductive Moves (P : Primitives) (u : Text.UnicodeTables) (keys : ChainKeys) (applied : List HostBlockText)
    (out : SpaceMerged) (env : Envelope) (out' : SpaceMerged) : Prop where
  | written (record : Record) (text : String) (writes : Writes P u keys applied out.section env record text)
      (taken : out'.section = out.section.take record env.seq)
      (effects : out'.effects = out.effects ++ [.Upsert record.id text])
  | removed (record : Record) (removes : Removes P keys out.section env record)
      (taken : out'.section = out.section.take record env.seq)
      (effects : out'.effects = out.effects ++ [.Delete record.id])
  | neither (untouched : ∀ alias_, ¬ Touches P u keys applied out.section env alias_)
      (contents : SameContents out.section out'.section) (effects : out'.effects = out.effects)

theorem untouched_of_decoded {space : SpaceState} {env : Envelope} {record : Record}
    (decoded : decodeHost P keys env = some record) (kept : ¬ Removes P keys space env record)
    (held : ∀ text, ¬ Writes P u keys applied space env record text) (alias_ : String) :
    ¬ Touches P u keys applied space env alias_ := by
  rintro ⟨other, -, removes | ⟨text, writes⟩⟩
  · obtain rfl := Option.some.inj (decoded.symm.trans removes.decoded)
    exact kept removes
  · obtain rfl := Option.some.inj (decoded.symm.trans writes.decoded)
    exact held text writes

theorem mergeEnvelope_moves (out : SpaceMerged) (env : Envelope) :
    Moves P u keys applied out env (mergeEnvelope P u keys applied deviceName out env) := by
  unfold mergeEnvelope
  split
  · rename_i decoded
    refine .neither ?_ (fun _ => rfl) rfl
    rintro alias_ ⟨record, -, removes | ⟨text, writes⟩⟩
    · cases decoded.symm.trans removes.decoded
    · cases decoded.symm.trans writes.decoded
  · rename_i record decoded
    unfold mergeRecord
    simp only
    split
    · -- a revision that loses moves nothing
      rename_i keeps
      refine .neither (untouched_of_decoded decoded ?_ ?_) (modify_contents fun _ => rfl) rfl
      · exact fun removes => removes.newer keeps
      · exact fun text writes => writes.newer keeps
    · rename_i newer
      split
      · rename_i dead
        exact .removed record ⟨decoded, newer, dead⟩ rfl rfl
      · rename_i live
        rw [Bool.not_eq_true] at live
        have kept : ¬ Removes P keys out.section env record := by
          intro removes
          rw [removes.dead] at live
          cases live
        split
        · -- a text that is no host of the alias is skipped
          rename_i none_
          refine .neither (untouched_of_decoded decoded kept ?_) (fun _ => rfl) rfl
          intro text writes
          rw [writes.usable] at none_
          cases none_
        · rename_i text usable
          split
          · -- a text seen before is not written again, unless an edit is lost to it
            rename_i again
            rw [Bool.and_eq_true, Bool.not_eq_eq_eq_not, Bool.not_true] at again
            have edit : out.section.losesEdit record = false := again.1
            refine .neither (untouched_of_decoded decoded kept ?_) (seeAgain_contents _ _ _) rfl
            intro other writes
            obtain loses | unseen := writes.fresh
            · rw [edit] at loses
              cases loses
            · rw [again.2] at unseen
              cases unseen
          · rename_i new
            have fresh : out.section.losesEdit record = true ∨ out.section.seen record = false := by
              cases edit : out.section.losesEdit record with
              | true => exact .inl rfl
              | false =>
                have noEdit : (merge out.section.records[recordKey .Host record.id]? record ==
                    .RemoteWinsOverDirtyLocal && !out.section.republish.contains (recordKey .Host record.id)) =
                      false := edit
                rw [noEdit] at new
                exact .inr (by simpa using new)
            unfold receiveText
            simp only
            split
            · -- a text under a directive the person has to allow is held back
              rename_i gated
              refine .neither (untouched_of_decoded decoded kept ?_) (hold_contents _ _) rfl
              intro other writes
              obtain rfl := Option.some.inj (usable.symm.trans writes.usable)
              rw [writes.free] at gated
              cases gated
            · rename_i free
              exact .written record text ⟨decoded, newer, live, usable, fresh, by simpa using free⟩ rfl rfl

/-! ## The cache and the file in step -/

/-- A live host of the alias is cached. -/
def HasLive (records : BTreeMap LocalRecord) (alias_ : String) : Prop :=
  ∃ row, records[recordKey .Host alias_]? = some row ∧ row.record.deleted = false

theorem SameContents.cachedText {space space' : SpaceState} (same : SameContents space space') (alias_ : String) :
    cachedText space'.records alias_ = cachedText space.records alias_ := by
  unfold V2.cachedText
  rw [same]

theorem SameContents.hasLive {space space' : SpaceState} (same : SameContents space space') {alias_ : String}
    (live : HasLive space'.records alias_) : HasLive space.records alias_ := by
  obtain ⟨row, held, live⟩ := live
  have before := same (recordKey .Host alias_)
  rw [held, Option.map_some, eq_comm, Option.map_eq_some_iff] at before
  obtain ⟨old, heldOld, sameRecord⟩ := before
  exact ⟨old, heldOld, by rw [sameRecord]; exact live⟩

theorem take_self (space : SpaceState) (record : Record) (seq : Nat) :
    (space.take record seq).records[recordKey .Host record.id]? = some { record, seq, dirty := false } :=
  BTreeMap.get?_insert_self _ _ _

theorem take_other (space : SpaceState) {record : Record} (seq : Nat) {alias_ : String} (apart : record.id ≠ alias_) :
    (space.take record seq).records[recordKey .Host alias_]? = space.records[recordKey .Host alias_]? :=
  BTreeMap.get?_insert_ne _ _ fun equal => apart (recordKey_injective equal).2

theorem cachedText_take_other (space : SpaceState) {record : Record} (seq : Nat) {alias_ : String}
    (apart : record.id ≠ alias_) :
    cachedText (space.take record seq).records alias_ = cachedText space.records alias_ := by
  unfold cachedText
  rw [take_other space seq apart]

theorem payloadText_of_hostText {record : Record} {text : String} (usable : hostText u record = some text) :
    payloadText record.payload = some text ∧ validateHostText u record.id.toList text.toList = .ok () := by
  unfold hostText at usable
  obtain ⟨read, valid⟩ := Option.filter_eq_some_iff.mp usable
  refine ⟨read, ?_⟩
  cases checked : validateHostText u record.id.toList text.toList with
  | ok => rfl
  | error message =>
    rw [checked] at valid
    cases valid

theorem cachedText_take_live (space : SpaceState) {record : Record} (seq : Nat) {text : String}
    (live : record.deleted = false) (usable : hostText u record = some text) :
    cachedText (space.take record seq).records record.id = some text := by
  unfold cachedText
  rw [take_self]
  simp [Option.filter, live, (payloadText_of_hostText usable).1]

theorem cachedText_take_dead (space : SpaceState) {record : Record} (seq : Nat) (dead : record.deleted = true) :
    cachedText (space.take record seq).records record.id = none := by
  unfold cachedText
  rw [take_self]
  simp [dead, Option.filter]

/-- The file shows the cached text of every host, its last line ended. -/
structure InStep (u : Text.UnicodeTables) (records : BTreeMap LocalRecord) (items : List Item) : Prop where
  lined : Lined u items
  named : NamedBlocks items
  shown : ∀ alias_ : String, textAt items alias_.toList =
    (cachedText records alias_).map fun text => closeLine text.toList
  readable : ∀ alias_, HasLive records alias_ → ∃ text, cachedText records alias_ = some text

theorem InStep.of_contents {space space' : SpaceState} {items : List Item} (step : InStep u space.records items)
    (same : SameContents space space') : InStep u space'.records items where
  lined := step.lined
  named := step.named
  shown := by
    intro alias_
    rw [same.cachedText]
    exact step.shown alias_
  readable := by
    intro alias_ live
    rw [same.cachedText]
    exact step.readable alias_ (same.hasLive live)

/-- The cache takes a record, and the block of its alias becomes what the record says. -/
theorem InStep.take {space : SpaceState} {items items' : List Item} (step : InStep u space.records items)
    {record : Record} {seq : Nat} {text : Option String}
    (cached : cachedText (space.take record seq).records record.id = text)
    (dead : record.deleted = false → text ≠ none)
    (places : Places u items record.id.toList (text.map fun text => closeLine text.toList) items') :
    InStep u (space.take record seq).records items' where
  lined := places.lined
  named := places.named
  shown := by
    intro alias_
    by_cases same : record.id = alias_
    · subst same
      rw [places.here, cached]
    · have apart : alias_.toList ≠ record.id.toList := fun equal => same (String.toList_injective equal).symm
      rw [places.elsewhere _ apart, cachedText_take_other space seq same]
      exact step.shown alias_
  readable := by
    intro alias_ live
    by_cases same : record.id = alias_
    · subst same
      obtain ⟨row, held, live⟩ := live
      rw [take_self] at held
      cases held
      rw [cached]
      exact Option.ne_none_iff_exists'.mp (dead live)
    · obtain ⟨row, held, live⟩ := live
      rw [take_other space seq same] at held
      rw [cachedText_take_other space seq same]
      exact step.readable alias_ ⟨row, held, live⟩

theorem syncable_of_decoded {env : Envelope} {record : Record} (decoded : decodeHost P keys env = some record) :
    isSyncableAlias record.id.toList = true := by
  obtain ⟨-, accepted⟩ := Option.filter_eq_some_iff.mp decoded
  exact (Bool.and_eq_true_iff.mp accepted).2

/-- What the effects so far have made of the items. -/
structure Carried (u : Text.UnicodeTables) (items : List Item) (out : SpaceMerged) (items' : List Item)
    (changed : Bool) : Prop where
  result : applyEffectsToItems u items out.effects = (items', changed, [])
  step : InStep u out.section.records items'
  same : changed = false → items' = items

/-- What an envelope does to the order of the blocks. -/
inductive Reorders (P : Primitives) (u : Text.UnicodeTables) (keys : ChainKeys) (applied : List HostBlockText)
    (space : SpaceState) (env : Envelope) (order : List (Option (List Char))) : List (Option (List Char)) → Prop where
  | written (record : Record) (text : String) (writes : Writes P u keys applied space env record text) :
      Reorders P u keys applied space env order (reorder order record.id.toList true)
  | removed (record : Record) (removes : Removes P keys space env record) :
      Reorders P u keys applied space env order (reorder order record.id.toList false)
  | neither (untouched : ∀ alias_, ¬ Touches P u keys applied space env alias_) :
      Reorders P u keys applied space env order order

theorem applyEffectsToItems_concat (items : List Item) (effects : List HostEffect) (effect : HostEffect) :
    applyEffectsToItems u items (effects ++ [effect]) =
      applyEffect u (applyEffectsToItems u items effects) effect := by
  simp [applyEffectsToItems]

theorem Moves.carried {items items' : List Item} {changed : Bool} {out out' : SpaceMerged} {env : Envelope}
    (moves : Moves P u keys applied out env out') (before : Carried u items out items' changed) :
    ∃ items'' changed', Carried u items out' items'' changed' ∧
      Reorders P u keys applied out.section env (items'.map firstAlias) (items''.map firstAlias) := by
  obtain ⟨result, step, same⟩ := before
  cases moves with
  | written record text writes taken effects =>
    obtain ⟨read, valid⟩ := payloadText_of_hostText writes.usable
    unfold validateHostText at valid
    rw [Result.refuse_bind_eq_ok] at valid
    obtain ⟨incoming, parsed, -⟩ := Result.bind_eq_ok.mp valid.2
    obtain ⟨items'', c, applies, places, kept⟩ :=
      applyHostText_places step.lined step.named (syncable_of_decoded writes.decoded) parsed
    refine ⟨items'', changed || c, ⟨?_, ?_, ?_⟩, places.order ▸ .written record text writes⟩
    · rw [effects, applyEffectsToItems_concat, result]
      simp [applyEffect, applies]
    · rw [taken]
      exact step.take (cachedText_take_live _ _ writes.live writes.usable) (by simp) places
    · intro unchanged
      rw [Bool.or_eq_false_iff] at unchanged
      exact (kept unchanged.2).trans (same unchanged.1)
  | removed record removes taken effects =>
    obtain ⟨places, kept⟩ := removeHostBlock_places step.lined step.named (syncable_of_decoded removes.decoded)
    refine ⟨(removeHostBlock items' record.id.toList).1, changed || (removeHostBlock items' record.id.toList).2,
      ⟨?_, ?_, ?_⟩, places.order ▸ .removed record removes⟩
    · rw [effects, applyEffectsToItems_concat, result]
      rfl
    · rw [taken]
      refine step.take (cachedText_take_dead _ _ removes.dead) ?_ places
      intro live
      rw [removes.dead] at live
      cases live
    · intro unchanged
      rw [Bool.or_eq_false_iff] at unchanged
      exact (kept unchanged.2).trans (same unchanged.1)
  | neither untouched contents effects =>
    refine ⟨items', changed, ⟨?_, step.of_contents contents, same⟩, .neither untouched⟩
    rw [effects]
    exact result

/-- Every effect of a pull is applied, and the file stays in step with the cache. -/
theorem mergedAfter_carried {space : SpaceState} {items : List Item} (step : InStep u space.records items)
    (envelopes : List Envelope) :
    ∃ items' changed, Carried u items (mergedAfter P u keys deviceName space applied envelopes) items' changed := by
  induction envelopes using List.reverseRecOn with
  | nil => exact ⟨items, false, rfl, step, fun _ => rfl⟩
  | append_singleton envelopes env ih =>
    obtain ⟨items', changed, before⟩ := ih
    rw [mergedAfter_append]
    obtain ⟨items'', changed', after, -⟩ := (mergeEnvelope_moves _ env).carried before
    exact ⟨items'', changed', after⟩

/-! ## Rows under their keys -/

theorem kind_of_decoded {env : Envelope} {record : Record} (decoded : decodeHost P keys env = some record) :
    record.kind = .Host := by
  obtain ⟨read, accepted⟩ := Option.filter_eq_some_iff.mp decoded
  have host : env.kind = RecordKind.Host.asStr := by
    simpa using (Bool.and_eq_true_iff.mp accepted).1
  simp only [decode, Option.bind_eq_bind, Option.bind_eq_some_iff] at read
  obtain ⟨kind, parsed, _, _, other, _, same⟩ := read
  split at same
  · cases same
  · rename_i agrees
    cases same
    have parsedHost : RecordKind.parse RecordKind.Host.asStr = some .Host := by decide
    rw [host, parsedHost] at parsed
    cases parsed
    simp only [Bool.or_eq_true, bne_iff_ne, ne_eq, not_or, Decidable.not_not] at agrees
    exact agrees.1

theorem SameContents.keyed {space space' : SpaceState} (same : SameContents space space') (keyed : space.Keyed) :
    space'.Keyed := by
  intro key row held
  have before := same key
  rw [held, Option.map_some, eq_comm, Option.map_eq_some_iff] at before
  obtain ⟨old, heldOld, sameRecord⟩ := before
  rw [← sameRecord]
  exact keyed key old heldOld

theorem take_keyed {space : SpaceState} (keyed : space.Keyed) {record : Record} (host : record.kind = .Host)
    (seq : Nat) : (space.take record seq).Keyed := by
  intro key row held
  by_cases same : recordKey .Host record.id = key
  · subst same
    rw [take_self] at held
    cases held
    rw [host]
  · exact keyed key row ((BTreeMap.get?_insert_ne _ _ same).symm.trans held)

theorem mergedAfter_keyed {space : SpaceState} (keyed : space.Keyed) (envelopes : List Envelope) :
    (mergedAfter P u keys deviceName space applied envelopes).section.Keyed := by
  induction envelopes using List.reverseRecOn with
  | nil => exact keyed
  | append_singleton envelopes env ih =>
    rw [mergedAfter_append]
    have moves : Moves P u keys applied _ env (mergeEnvelope P u keys applied deviceName
        (mergedAfter P u keys deviceName space applied envelopes) env) := mergeEnvelope_moves _ env
    cases moves with
    | written record _ writes taken => rw [taken]; exact take_keyed ih (kind_of_decoded writes.decoded) env.seq
    | removed record removes taken => rw [taken]; exact take_keyed ih (kind_of_decoded removes.decoded) env.seq
    | neither _ contents => exact contents.keyed ih

/-- The end of a pull changes sequence numbers and marks only. -/
theorem mergeSpace_contents (space : SpaceState) (pulled : PullResponse) :
    SameContents (mergedAfter P u keys deviceName space applied pulled.records).section
      (mergeSpace P u keys space pulled applied deviceName).section := by
  unfold mergeSpace
  simp only
  split
  · exact rewind_contents _
  · exact fun _ => rfl

/-! ## The last host of the file -/

section Left
variable (P u keys deviceName) (space : SpaceState) (applied : List HostBlockText)

/-- No record of `rest`, merged after `done`, removes the host. -/
def Stays (alias_ : String) : (done rest : List Envelope) → Prop
  | _, [] => True
  | done, env :: rest =>
    (∀ record, record.id = alias_ →
      ¬ Removes P keys (mergedAfter P u keys deviceName space applied done).section env record) ∧
      Stays alias_ (done ++ [env]) rest

/-- The record writes a host that the file does not have by then. -/
def Adds (done : List Envelope) (env : Envelope) (alias_ : String) : Prop :=
  cachedText (mergedAfter P u keys deviceName space applied done).section.records alias_ = none ∧
    ∃ record text, record.id = alias_ ∧
      Writes P u keys applied (mergedAfter P u keys deviceName space applied done).section env record text

/-- No host that `rest` adds stays. -/
def AddsNone : (done rest : List Envelope) → Prop
  | _, [] => True
  | done, env :: rest =>
    (∀ alias_, Adds P u keys deviceName space applied done env alias_ →
      ¬ Stays P u keys deviceName space applied alias_ (done ++ [env]) rest) ∧ AddsNone (done ++ [env]) rest

/-- The host is the last one that `rest` adds and that stays. -/
def AddedLast (alias_ : String) : (done rest : List Envelope) → Prop
  | _, [] => False
  | done, env :: rest =>
    (Adds P u keys deviceName space applied done env alias_ ∧
      Stays P u keys deviceName space applied alias_ (done ++ [env]) rest ∧
      AddsNone P u keys deviceName space applied (done ++ [env]) rest) ∨ AddedLast alias_ (done ++ [env]) rest

end Left

/-- The host is the last one that stays, with no block after it that is not a host's. -/
def LastStanding (order : List (Option (List Char))) (stays : String → Prop) (alias_ : String) : Prop :=
  ∃ above below, order = above ++ some alias_.toList :: below ∧ stays alias_ ∧
    ∀ other ∈ below, ∃ name : String, other = some name.toList ∧ ¬ stays name

/-- The host whose block is the last one once `rest` is merged: the last one added that stays, else the
last one in `order` that stays. -/
def LastHost (P : Primitives) (u : Text.UnicodeTables) (keys : ChainKeys) (deviceName : String → String)
    (space : SpaceState) (applied : List HostBlockText) (order : List (Option (List Char)))
    (done rest : List Envelope) (alias_ : String) : Prop :=
  AddedLast P u keys deviceName space applied alias_ done rest ∨
    LastStanding order (Stays P u keys deviceName space applied · done rest) alias_ ∧
      AddsNone P u keys deviceName space applied done rest

section Order
variable {order order' : List (Option (List Char))} {stays : String → Prop} {alias_ name : String}

theorem lastStanding_all (all : ∀ name, stays name) :
    LastStanding order stays alias_ ↔ order.getLast? = some (some alias_.toList) := by
  constructor
  · rintro ⟨above, below, rfl, -, gone⟩
    cases below with
    | nil => exact List.getLast?_concat
    | cons other rest =>
      obtain ⟨name, -, left⟩ := gone other List.mem_cons_self
      exact absurd (all name) left
  · intro last
    exact ⟨order.dropLast, [], (List.dropLast_append_getLast? _ last).symm, all alias_, nofun⟩

theorem lastStanding_concat : LastStanding (order ++ [some name.toList]) stays alias_ ↔
    (alias_ = name ∧ stays name) ∨ (¬ stays name ∧ LastStanding order stays alias_) := by
  constructor
  · rintro ⟨above, below, parts, stay, gone⟩
    induction below using List.reverseRecOn with
    | nil =>
      obtain ⟨-, same⟩ := List.append_inj' parts rfl
      obtain rfl := String.toList_injective (Option.some.inj (List.singleton_inj.mp same))
      exact .inl ⟨rfl, stay⟩
    | append_singleton below last _ =>
      rw [← List.cons_append, ← List.append_assoc] at parts
      obtain ⟨rfl, same⟩ := List.append_inj' parts rfl
      obtain ⟨other, named, left⟩ := gone last (by simp)
      rw [← List.singleton_inj.mp same] at named
      obtain rfl := String.toList_injective (Option.some.inj named)
      exact .inr ⟨left, above, below, rfl, stay, fun other member => gone other (List.mem_append_left _ member)⟩
  · rintro (⟨rfl, stay⟩ | ⟨left, above, below, rfl, stay, gone⟩)
    · exact ⟨order, [], rfl, stay, nofun⟩
    · refine ⟨above, below ++ [some name.toList], by simp, stay, fun other member => ?_⟩
      obtain inBelow | last := List.mem_append.mp member
      · exact gone other inBelow
      · exact ⟨name, List.mem_singleton.mp last, left⟩

theorem lastStanding_filter : LastStanding (order.filter (· ≠ some name.toList)) stays alias_ ↔
    LastStanding order (fun other => other ≠ name ∧ stays other) alias_ := by
  constructor
  · rintro ⟨above, below, parts, stay, gone⟩
    obtain ⟨front, back, rfl, rfl, inBack⟩ := List.filter_eq_append_iff.mp parts
    obtain ⟨removed, rest, rfl, left, kept, rfl⟩ := List.filter_eq_cons_iff.mp inBack
    refine ⟨front ++ removed, rest, by simp, ⟨?_, stay⟩, fun other member => ?_⟩
    · rintro rfl
      simp at kept
    · by_cases same : other = some name.toList
      · exact ⟨name, same, fun both => both.1 rfl⟩
      · obtain ⟨found, named, left⟩ := gone other (List.mem_filter.mpr ⟨member, by simpa using same⟩)
        exact ⟨found, named, fun both => left both.2⟩
  · rintro ⟨above, below, rfl, ⟨apart, stay⟩, gone⟩
    refine ⟨above.filter (· ≠ some name.toList), below.filter (· ≠ some name.toList), ?_, stay, fun other member => ?_⟩
    · rw [List.filter_append, List.filter_cons_of_pos]
      simpa [String.toList_inj] using apart
    · obtain ⟨inBelow, other_⟩ := List.mem_filter.mp member
      obtain ⟨found, rfl, left⟩ := gone other inBelow
      refine ⟨found, rfl, fun stay => left ⟨?_, stay⟩⟩
      rintro rfl
      simp at other_

end Order

section Last
variable {space : SpaceState} {order order' : List (Option (List Char))} {done rest : List Envelope} {env : Envelope}
  {alias_ : String}

/-- Merging one record leaves the same last host to come. -/
theorem Reorders.lastHost
    (reorders : Reorders P u keys applied (mergedAfter P u keys deviceName space applied done).section env order order')
    (present : ∀ name : String, some name.toList ∈ order ↔
      cachedText (mergedAfter P u keys deviceName space applied done).section.records name ≠ none) :
    LastHost P u keys deviceName space applied order done (env :: rest) alias_ ↔
      LastHost P u keys deviceName space applied order' (done ++ [env]) rest alias_ := by
  set section_ := (mergedAfter P u keys deviceName space applied done).section with sectionDef
  -- nothing is added by a record that writes no new host
  have quiet (none_ : ∀ name, ¬ Adds P u keys deviceName space applied done env name) (left : String → Prop)
      (removes : ∀ name, (∀ record, record.id = name → ¬ Removes P keys section_ env record) ↔ left name) :
      LastHost P u keys deviceName space applied order done (env :: rest) alias_ ↔
        AddedLast P u keys deviceName space applied alias_ (done ++ [env]) rest ∨
          LastStanding order (fun name => left name ∧
            Stays P u keys deviceName space applied name (done ++ [env]) rest) alias_ ∧
            AddsNone P u keys deviceName space applied (done ++ [env]) rest := by
    simp only [LastHost, AddedLast, AddsNone, Stays, none_, false_and, false_or, false_imp_iff, implies_true,
      true_and, ← sectionDef, removes]
  cases reorders with
  | neither untouched =>
    rw [quiet ?_ (fun _ => True) ?_]
    · simp only [true_and, LastHost]
    · rintro name ⟨-, record, text, rfl, writes⟩
      exact untouched record.id ⟨record, rfl, .inr ⟨text, writes⟩⟩
    · exact fun name => iff_true_intro fun record same removes => untouched name ⟨record, same, .inl removes⟩
  | removed record removes =>
    rw [quiet ?_ (· ≠ record.id) ?_]
    · rw [LastHost, reorder, if_neg Bool.false_ne_true, lastStanding_filter]
    · rintro name ⟨-, other, text, -, writes⟩
      obtain rfl := Option.some.inj (removes.decoded.symm.trans writes.decoded)
      have live := writes.live
      rw [removes.dead] at live
      cases live
    · refine fun name => ⟨fun kept same => kept record same.symm removes, fun apart other named removes' => ?_⟩
      obtain rfl := Option.some.inj (removes.decoded.symm.trans removes'.decoded)
      exact apart named.symm
  | written record text writes =>
    have kept (name : String) : (∀ other, other.id = name → ¬ Removes P keys section_ env other) ↔ True := by
      refine iff_true_intro fun other _ removes => ?_
      obtain rfl := Option.some.inj (writes.decoded.symm.trans removes.decoded)
      have dead := removes.dead
      rw [writes.live] at dead
      cases dead
    by_cases here : some record.id.toList ∈ order
    · rw [quiet ?_ (fun _ => True) kept]
      · simp only [true_and, LastHost, reorder, if_pos, here]
      · rintro name ⟨absent, other, text', rfl, writes'⟩
        obtain rfl := Option.some.inj (writes.decoded.symm.trans writes'.decoded)
        exact (present record.id).mp here absent
    · have adds (name : String) : Adds P u keys deviceName space applied done env name ↔ name = record.id := by
        constructor
        · rintro ⟨-, other, text', rfl, writes'⟩
          rw [Option.some.inj (writes.decoded.symm.trans writes'.decoded)]
        · rintro rfl
          refine ⟨?_, record, text, rfl, writes⟩
          by_contra some_
          exact here ((present record.id).mpr some_)
      simp only [LastHost, AddedLast, AddsNone, Stays, adds, forall_eq, ← sectionDef, kept, true_and, reorder, if_pos,
        if_neg here, lastStanding_concat]
      constructor
      · rintro ((⟨rfl, stay, none_⟩ | later) | ⟨standing, gone, none_⟩)
        · exact .inr ⟨.inl ⟨rfl, stay⟩, none_⟩
        · exact .inl later
        · exact .inr ⟨.inr ⟨gone, standing⟩, none_⟩
      · rintro (later | ⟨⟨rfl, stay⟩ | ⟨gone, standing⟩, none_⟩)
        · exact .inl (.inr later)
        · exact .inl (.inl ⟨rfl, stay, none_⟩)
        · exact .inr ⟨standing, gone, none_⟩

/-- The last block of the file after a pull is that of the last host, if it is a host's. -/
theorem lastHost_iff {start items items' : List Item} {changed changed' : Bool}
    (before : Carried u start (mergedAfter P u keys deviceName space applied done) items changed)
    (after : Carried u start (mergedAfter P u keys deviceName space applied (done ++ rest)) items' changed') :
    (items'.map firstAlias).getLast? = some (some alias_.toList) ↔
      LastHost P u keys deviceName space applied (items.map firstAlias) done rest alias_ := by
  induction rest generalizing done items changed with
  | nil =>
    rw [List.append_nil] at after
    obtain ⟨rfl, -⟩ := Prod.mk.inj (before.result.symm.trans after.result)
    simp [LastHost, AddedLast, AddsNone, Stays, lastStanding_all]
  | cons env rest ih =>
    have moves : Moves P u keys applied _ env (mergeEnvelope P u keys applied deviceName
        (mergedAfter P u keys deviceName space applied done) env) := mergeEnvelope_moves _ env
    obtain ⟨items₁, changed₁, next, reorders⟩ := moves.carried before
    rw [← mergedAfter_append] at next
    rw [List.append_cons] at after
    rw [ih next after, reorders.lastHost]
    intro name
    rw [mem_aliases_iff, before.step.shown, Ne, Option.map_eq_none_iff]

end Last

end Sshelter.Sync.V2
