import Sshelter.Sync.SpaceMerge
import Sshelter.Verified.HostText
import Sshelter.Verified.PlainPrimitives

/-! # Held revisions stay out

Merging pulls into a space of the second format.  A text with gated settings reaches the file
only when the block in use has the same ones; any other winning text waits for approval and
is neither cached nor uploaded, however many pulls follow.
-/

namespace Sshelter.Sync.V2

open HostsFile Approval

variable {P : Primitives} {u : Text.UnicodeTables} {keys : ChainKeys} {applied : List HostBlockText}
  {deviceName : String → String}

/-! ## Gated settings -/

/-- The text brings no gated setting, or has the signature of the block in use. -/
def Approved (u : Text.UnicodeTables) (applied : List HostBlockText) (alias_ text : String) : Prop :=
  (signature u text.toList).gated = [] ∨ ∃ current, appliedText applied alias_ = some current ∧
    signature u text.toList = signature u current.toList

theorem approved_of_needsApproval {alias_ text : String}
    (open_ : needsApproval u text.toList ((appliedText applied alias_).map String.toList) = false) :
    Approved u applied alias_ text := by
  unfold needsApproval at open_
  split at open_
  · cases open_
  · simp only at open_
    split at open_
    · rename_i none_
      exact .inl (List.isEmpty_iff.mp none_)
    · rename_i some_
      rw [decide_eq_false_iff_not, not_not] at open_
      cases found : appliedText applied alias_ with
      | none =>
        -- no block has the empty signature, which has no gated line
        rw [found] at open_
        rw [open_] at some_
        exact absurd rfl some_
      | some current =>
        rw [found] at open_
        exact .inr ⟨current, found, open_⟩

/-! ## What one record does -/

/-- The pulled record replaces an edit that was not uploaded. -/
def SpaceState.losesEdit (space : SpaceState) (record : Record) : Bool :=
  merge space.records[recordKey .Host record.id]? record == .RemoteWinsOverDirtyLocal &&
    !space.republish.contains (recordKey .Host record.id)

/-- The record is newer than the cached one. -/
def SpaceState.Loses (space : SpaceState) (record : Record) : Prop :=
  merge space.records[recordKey .Host record.id]? record ≠ .KeepLocal

instance (space : SpaceState) (record : Record) : Decidable (space.Loses record) :=
  inferInstanceAs (Decidable (merge space.records[recordKey .Host record.id]? record ≠ .KeepLocal))

/-- The cached records are the same, whatever their sequence numbers and marks. -/
def SameContents (space space' : SpaceState) : Prop :=
  ∀ key : String, (space'.records[key]?).map (·.record) = (space.records[key]?).map (·.record)

/-- Every way a pulled envelope is handled. -/
inductive Handled (P : Primitives) (u : Text.UnicodeTables) (keys : ChainKeys) (applied : List HostBlockText)
    (out : SpaceMerged) (env : Envelope) (out' : SpaceMerged) : Prop where
  | unreadable (decoded : decodeHost P keys env = none)
      (result : out' = { out with skipped := out.skipped + 1 })
  | kept (record : Record) (decoded : decodeHost P keys env = some record)
      (wins : ¬ out.section.Loses record)
      (result : out' = { out with «section» := { out.section with
        records := out.section.records.modify (recordKey .Host record.id) fun row => { row with seq := env.seq } } })
  | deleted (record : Record) (decoded : decodeHost P keys env = some record)
      (wins : out.section.Loses record) (dead : record.deleted = true)
      (taken : out'.section = out.section.take record env.seq) (held : out'.held = out.held)
      (effects : out'.effects = out.effects ++ [.Delete record.id])
  | unusable (record : Record) (decoded : decodeHost P keys env = some record)
      (wins : out.section.Loses record) (live : record.deleted = false) (text : hostText u record = none)
      (result : out' = { out with skipped := out.skipped + 1 })
  | seen (record : Record) (text : String) (decoded : decodeHost P keys env = some record)
      (wins : out.section.Loses record) (live : record.deleted = false) (usable : hostText u record = some text)
      (edit : out.section.losesEdit record = false) (seen : out.section.seen record = true)
      (result : out' = { out with «section» := out.section.seeAgain record env.seq })
  | held (record : Record) (text : String) (pending : PendingApproval)
      (decoded : decodeHost P keys env = some record) (wins : out.section.Loses record)
      (live : record.deleted = false) (usable : hostText u record = some text)
      (fresh : out.section.losesEdit record = false → out.section.seen record = false)
      (named : pending.record = record) (hold : out'.section = out.section.hold pending)
      (held : out'.held = out.held ++ [record.id]) (effects : out'.effects = out.effects)
  | applied (record : Record) (text : String) (decoded : decodeHost P keys env = some record)
      (wins : out.section.Loses record) (live : record.deleted = false) (usable : hostText u record = some text)
      (approved : Approved u applied record.id text) (taken : out'.section = out.section.take record env.seq)
      (held : out'.held = out.held) (effects : out'.effects = out.effects ++ [.Upsert record.id text])

theorem mergeEnvelope_handled (out : SpaceMerged) (env : Envelope) :
    Handled P u keys applied out env (mergeEnvelope P u keys applied deviceName out env) := by
  unfold mergeEnvelope
  split
  · rename_i decoded
    exact .unreadable decoded rfl
  · rename_i record decoded
    unfold mergeRecord
    simp only
    split
    · rename_i keeps
      exact .kept record decoded (fun wins => wins keeps) rfl
    · rename_i wins
      split
      · rename_i dead
        exact .deleted record decoded wins dead rfl rfl rfl
      · rename_i live
        rw [Bool.not_eq_true] at live
        split
        · rename_i text
          exact .unusable record decoded wins live text rfl
        · rename_i text usable
          split
          · rename_i again
            rw [Bool.and_eq_true, Bool.not_eq_eq_eq_not, Bool.not_true] at again
            exact .seen record text decoded wins live usable again.1 again.2 rfl
          · rename_i fresh
            unfold receiveText
            simp only
            split
            · refine .held record text _ decoded wins live usable (fun edit => ?_) rfl rfl rfl rfl
              rw [Bool.and_eq_true, Bool.not_eq_eq_eq_not, Bool.not_true, not_and, Bool.not_eq_true] at fresh
              exact fresh edit
            · rename_i open_
              exact .applied record text decoded wins live usable
                (approved_of_needsApproval (by simpa using open_)) rfl rfl rfl

/-! ## Records that wait or were declined -/

/-- The space holds this revision for approval, or the user declined its version. -/
def SpaceState.Withholds (space : SpaceState) (record : Record) : Prop :=
  (∃ pending, space.pendingApprovals[record.id]? = some pending ∧ pending.record = record) ∨
    ∃ declined, space.declined[record.id]? = some declined ∧ declined.same record = true

/-- What every merge keeps: a withheld revision is in the cache only if it was there at the start,
withheld already or under another record's key. -/
structure StaysOut (start space : SpaceState) : Prop where
  withheld : ∀ record, space.Withholds record → ∀ (key : String) row, space.records[key]? = some row →
    row.record = record → ∃ old, start.records[key]? = some old ∧ old.record = record ∧
      (key = recordKey .Host record.id → start.Withholds record)
  misplaced : ∀ (key : String) row, space.records[key]? = some row → key ≠ recordKey .Host row.record.id →
    ∃ old, start.records[key]? = some old ∧ old.record = row.record

theorem StaysOut.start (space : SpaceState) : StaysOut space space :=
  ⟨fun _ withheld _ row held same => ⟨row, held, same, fun _ => withheld⟩,
    fun _ row held _ => ⟨row, held, rfl⟩⟩

/-- Marks and sequence numbers do not matter. -/
theorem StaysOut.of_contents {start space space' : SpaceState} (out : StaysOut start space)
    (contents : SameContents space space')
    (withholds : ∀ record, space'.Withholds record → space.Withholds record) : StaysOut start space' := by
  have before (key : String) (row : LocalRecord) (held : space'.records[key]? = some row) :
      ∃ old, space.records[key]? = some old ∧ old.record = row.record := by
    have same := contents key
    rw [held, Option.map_some, eq_comm, Option.map_eq_some_iff] at same
    exact same
  constructor
  · intro record withheld key row held same
    obtain ⟨old, heldOld, sameOld⟩ := before key row held
    exact out.withheld record (withholds record withheld) key old heldOld (sameOld.trans same)
  · intro key row held misplaced
    obtain ⟨old, heldOld, sameOld⟩ := before key row held
    rw [← sameOld] at misplaced ⊢
    exact out.misplaced key old heldOld misplaced

theorem get?_modify {α : Type} (m : BTreeMap α) (k a : String) (f : α → α) :
    (m.modify k f)[a]? = if k = a then m[k]?.map f else m[a]? := by
  simp [Std.ExtTreeMap.getElem?_modify]

theorem modify_contents {m : BTreeMap LocalRecord} {k : String} {f : LocalRecord → LocalRecord}
    (same : ∀ row, (f row).record = row.record) (key : String) :
    ((m.modify k f)[key]?).map (·.record) = (m[key]?).map (·.record) := by
  rw [get?_modify]
  split
  · rename_i here
    subst here
    cases m[k]? with
    | none => rfl
    | some row => simp [same]
  · rfl

theorem seeAgain_contents (space : SpaceState) (record : Record) (seq : Nat) :
    SameContents space (space.seeAgain record seq) :=
  modify_contents fun _ => rfl

theorem hold_contents (space : SpaceState) (pending : PendingApproval) :
    SameContents space (space.hold pending) :=
  modify_contents fun _ => rfl

theorem rewind_contents (space : SpaceState) : SameContents space space.rewind := by
  intro key
  simp only [SpaceState.rewind, Std.ExtTreeMap.getElem?_map]
  cases space.records[key]? <;> rfl

theorem seeAgain_withholds {space : SpaceState} {again record : Record} {seq : Nat}
    (withheld : (space.seeAgain again seq).Withholds record) : space.Withholds record := by
  obtain ⟨pending, found, rfl⟩ | ⟨declined, found, same⟩ := withheld
  · simp only [SpaceState.seeAgain, get?_modify] at found
    split at found
    · rename_i here
      rw [Option.map_eq_some_iff] at found
      obtain ⟨old, found, rfl⟩ := found
      rw [here] at found
      refine .inl ⟨old, found, ?_⟩
      split <;> rfl
    · exact .inl ⟨pending, found, rfl⟩
  · simp only [SpaceState.seeAgain, get?_modify] at found
    split at found
    · rename_i here
      rw [Option.map_eq_some_iff] at found
      obtain ⟨old, found, rfl⟩ := found
      rw [here] at found
      refine .inr ⟨old, found, ?_⟩
      split at same
      · exact same
      · exact same
    · exact .inr ⟨declined, found, same⟩

theorem rewind_withholds {space : SpaceState} {record : Record} (withheld : space.rewind.Withholds record) :
    space.Withholds record := by
  obtain ⟨pending, found, rfl⟩ | ⟨declined, found, same⟩ := withheld
  · simp only [SpaceState.rewind, Std.ExtTreeMap.getElem?_map, Option.map_eq_some_iff] at found
    obtain ⟨old, found, rfl⟩ := found
    exact .inl ⟨old, found, rfl⟩
  · simp only [SpaceState.rewind, Std.ExtTreeMap.getElem?_map, Option.map_eq_some_iff] at found
    obtain ⟨old, found, rfl⟩ := found
    exact .inr ⟨old, found, same⟩

/-- Taking or holding a record of one alias leaves what is withheld of the others. -/
theorem withholds_of_erased {space space' : SpaceState} {alias_ : String} {record : Record}
    (other : alias_ ≠ record.id)
    (pendings : ∀ id ≠ alias_, space'.pendingApprovals[id]? = space.pendingApprovals[id]?)
    (declines : space'.declined = space.declined.erase alias_) (withheld : space'.Withholds record) :
    space.Withholds record := by
  obtain ⟨pending, found, same⟩ | ⟨declined, found, same⟩ := withheld
  · rw [pendings _ other.symm] at found
    exact .inl ⟨pending, found, same⟩
  · rw [declines, BTreeMap.get?_erase_ne _ other] at found
    exact .inr ⟨declined, found, same⟩

theorem StaysOut.take {start space : SpaceState} (out : StaysOut start space) (record : Record) (seq : Nat) :
    StaysOut start (space.take record seq) := by
  have row_cases (key : String) (row : LocalRecord) (held : (space.take record seq).records[key]? = some row) :
      (key = recordKey .Host record.id ∧ row.record = record) ∨ space.records[key]? = some row := by
    simp only [SpaceState.take, BTreeMap.get?_insert] at held
    split at held
    · rename_i here
      cases held
      exact .inl ⟨here.symm, rfl⟩
    · exact .inr held
  constructor
  · intro other withheld key row held same
    by_cases here : record.id = other.id
    · -- nothing of this alias waits any more
      obtain ⟨pending, found, _⟩ | ⟨declined, found, _⟩ := withheld
      · simp [SpaceState.take, here] at found
      · simp [SpaceState.take, here] at found
    · have before : space.Withholds other := by
        refine withholds_of_erased here (fun id apart => ?_) rfl withheld
        exact BTreeMap.get?_erase_ne _ apart.symm
      obtain ⟨_, taken⟩ | held := row_cases key row held
      · rw [← same, taken] at here
        exact absurd rfl here
      · exact out.withheld other before key row held same
  · intro key row held misplaced
    obtain ⟨here, taken⟩ | held := row_cases key row held
    · rw [taken] at misplaced
      exact absurd here misplaced
    · exact out.misplaced key row held misplaced

theorem StaysOut.hold {start space : SpaceState} (out : StaysOut start space) {pending : PendingApproval}
    (wins : space.Loses pending.record) : StaysOut start (space.hold pending) := by
  have before (key : String) (row : LocalRecord) (held : (space.hold pending).records[key]? = some row) :
      ∃ old, space.records[key]? = some old ∧ old.record = row.record := by
    have same := hold_contents space pending key
    rw [held, Option.map_some, eq_comm, Option.map_eq_some_iff] at same
    exact same
  constructor
  · intro record withheld key row held same
    obtain ⟨old, heldOld, sameOld⟩ := before key row held
    by_cases here : pending.record.id = record.id
    · have named : record = pending.record := by
        obtain ⟨waiting, found, rfl⟩ | ⟨declined, found, _⟩ := withheld
        · simp only [SpaceState.hold, here, BTreeMap.get?_insert_self] at found
          rw [← Option.some.inj found]
        · simp [SpaceState.hold, here] at found
      subst named
      by_cases own : key = recordKey .Host pending.record.id
      · -- the held revision is newer than the cached one
        subst own
        rw [SpaceState.Loses, heldOld, merge_ne_keepLocal_iff, sameOld, same] at wins
        exact absurd wins (lt_irrefl _)
      · obtain ⟨origin, heldOrigin, sameOrigin⟩ := out.misplaced key old heldOld (by rw [sameOld, same]; exact own)
        exact ⟨origin, heldOrigin, sameOrigin.trans (sameOld.trans same), fun equal => absurd equal own⟩
    · have withheld' : space.Withholds record := by
        refine withholds_of_erased here (fun id apart => ?_) rfl withheld
        exact BTreeMap.get?_insert_ne _ _ apart.symm
      exact out.withheld record withheld' key old heldOld (sameOld.trans same)
  · intro key row held misplaced
    obtain ⟨old, heldOld, sameOld⟩ := before key row held
    rw [← sameOld] at misplaced ⊢
    exact out.misplaced key old heldOld misplaced

theorem Handled.staysOut {start : SpaceState} {out out' : SpaceMerged} {env : Envelope}
    (handled : Handled P u keys applied out env out') (stays : StaysOut start out.section) :
    StaysOut start out'.section := by
  cases handled with
  | unreadable _ result => rw [result]; exact stays
  | kept record _ _ result =>
    rw [result]
    exact stays.of_contents (modify_contents fun _ => rfl) fun _ withheld => withheld
  | deleted record _ _ _ taken => rw [taken]; exact stays.take record env.seq
  | unusable _ _ _ _ _ result => rw [result]; exact stays
  | seen record _ _ _ _ _ _ _ result =>
    rw [result]
    exact stays.of_contents (seeAgain_contents _ _ _) fun _ => seeAgain_withholds
  | held record _ pending _ wins _ _ _ named hold =>
    rw [hold]
    exact stays.hold (by rw [named]; exact wins)
  | applied record _ _ _ _ _ _ taken => rw [taken]; exact stays.take record env.seq

/-! ## Pulls and runs -/

/-- What one merge is given: a pull, and the blocks of the file at that time. -/
structure Pull where
  pulled : PullResponse
  applied : List HostBlockText

section Runs
variable (P u keys deviceName)

/-- The merge of a pull after some of its envelopes. -/
def mergedAfter (space : SpaceState) (applied : List HostBlockText) (envelopes : List Envelope) : SpaceMerged :=
  envelopes.foldl (mergeEnvelope P u keys applied deviceName)
    { «section» := space, effects := [], conflicts := [], held := [], skipped := 0 }

/-- The space after some pulls. -/
def spaceAfter (space : SpaceState) (pulls : List Pull) : SpaceState :=
  pulls.foldl (fun space pull => (mergeSpace P u keys space pull.pulled pull.applied deviceName).section) space

end Runs

theorem mergedAfter_append {space : SpaceState} {envelopes : List Envelope} {env : Envelope} :
    mergedAfter P u keys deviceName space applied (envelopes ++ [env]) =
      mergeEnvelope P u keys applied deviceName (mergedAfter P u keys deviceName space applied envelopes) env := by
  simp [mergedAfter]

theorem mergedAfter_approved {space : SpaceState} (envelopes : List Envelope) {alias_ text : String}
    (effect : .Upsert alias_ text ∈ (mergedAfter P u keys deviceName space applied envelopes).effects) :
    Approved u applied alias_ text := by
  induction envelopes using List.reverseRecOn with
  | nil => cases effect
  | append_singleton envelopes env ih =>
    rw [mergedAfter_append] at effect
    set out := mergedAfter P u keys deviceName space applied envelopes
    have handled : Handled P u keys applied out env (mergeEnvelope P u keys applied deviceName out env) :=
      mergeEnvelope_handled out env
    cases handled with
    | unreadable _ result => rw [result] at effect; exact ih effect
    | kept _ _ _ result => rw [result] at effect; exact ih effect
    | deleted _ _ _ _ _ _ effects =>
      rw [effects, List.mem_append, List.mem_singleton] at effect
      obtain before | this := effect
      · exact ih before
      · cases this
    | unusable _ _ _ _ _ result => rw [result] at effect; exact ih effect
    | seen _ _ _ _ _ _ _ _ result => rw [result] at effect; exact ih effect
    | held _ _ _ _ _ _ _ _ _ _ _ effects => rw [effects] at effect; exact ih effect
    | applied _ _ _ _ _ _ approved _ _ effects =>
      rw [effects, List.mem_append, List.mem_singleton] at effect
      obtain before | this := effect
      · exact ih before
      · cases this
        exact approved

theorem mergedAfter_staysOut {start space : SpaceState} (stays : StaysOut start space) (envelopes : List Envelope) :
    StaysOut start (mergedAfter P u keys deviceName space applied envelopes).section := by
  induction envelopes using List.reverseRecOn with
  | nil => exact stays
  | append_singleton envelopes env ih =>
    rw [mergedAfter_append]
    exact (mergeEnvelope_handled _ env).staysOut ih

theorem mergeSpace_staysOut {start space : SpaceState} {pull : PullResponse} (stays : StaysOut start space) :
    StaysOut start (mergeSpace P u keys space pull applied deviceName).section := by
  have merged : StaysOut start (mergedAfter P u keys deviceName space applied pull.records).section :=
    mergedAfter_staysOut stays pull.records
  unfold mergeSpace
  simp only
  split
  · exact merged.of_contents (rewind_contents _) fun _ => rewind_withholds
  · exact merged.of_contents (fun _ => rfl) fun _ withheld => withheld

theorem spaceAfter_staysOut (space : SpaceState) (pulls : List Pull) :
    StaysOut space (spaceAfter P u keys deviceName space pulls) := by
  induction pulls using List.reverseRecOn with
  | nil => exact .start space
  | append_singleton pulls pull ih =>
    rw [spaceAfter, List.foldl_append]
    exact mergeSpace_staysOut ih

/-! ## Winning revisions -/

/-- A pulled live revision that is newer than the cached one. -/
structure Winning (P : Primitives) (keys : ChainKeys) (out : SpaceMerged) (env : Envelope) (record : Record) :
    Prop where
  decoded : decodeHost P keys env = some record
  live : record.deleted = false
  wins : out.section.Loses record

/-- The revision is written to the file. -/
structure WrittenOut (u : Text.UnicodeTables) (applied : List HostBlockText) (out out' : SpaceMerged)
    (record : Record) (text : String) : Prop where
  approved : Approved u applied record.id text
  effects : out'.effects = out.effects ++ [.Upsert record.id text]
  held : out'.held = out.held

/-- The revision waits for approval, or was declined or waits already: the file and the cached records
stay as they are, and nothing of this alias is uploaded. -/
structure HeldBack (out out' : SpaceMerged) (record : Record) : Prop where
  effects : out'.effects = out.effects
  contents : SameContents out.section out'.section
  clean : ∀ row, out'.section.records[recordKey .Host record.id]? = some row → row.dirty = false
  waits :
    ((∃ pending, out'.section.pendingApprovals[record.id]? = some pending ∧ pending.record = record) ∧
        out'.held = out.held ++ [record.id] ∧
        (out.section.losesEdit record = false → out.section.seen record = false)) ∨
      (out.section.seen record = true ∧ out.section.losesEdit record = false ∧ out'.held = out.held)

theorem modify_clean {m : BTreeMap LocalRecord} {k : String} {row : LocalRecord}
    (held : (m.modify k fun row => { row with dirty := false })[k]? = some row) : row.dirty = false := by
  rw [get?_modify, if_pos rfl, Option.map_eq_some_iff] at held
  obtain ⟨_, _, rfl⟩ := held
  rfl

/-- What becomes of a winning revision: it is written out or held back, or has no usable text. -/
def Outcome (u : Text.UnicodeTables) (applied : List HostBlockText) (out out' : SpaceMerged)
    (record : Record) : Prop :=
  match hostText u record with
  | some text => WrittenOut u applied out out' record text ∨ HeldBack out out' record
  | none => out' = { out with skipped := out.skipped + 1 }

theorem Handled.outcome {out out' : SpaceMerged} {env : Envelope} {record : Record}
    (handled : Handled P u keys applied out env out') (winning : Winning P keys out env record) :
    Outcome u applied out out' record := by
  have same {other : Record} (decoded : decodeHost P keys env = some other) : other = record :=
    Option.some.inj (decoded.symm.trans winning.decoded)
  unfold Outcome
  cases handled with
  | unreadable decoded =>
    rw [winning.decoded] at decoded
    cases decoded
  | kept other decoded wins =>
    obtain rfl := same decoded
    exact absurd winning.wins wins
  | deleted other decoded _ dead =>
    obtain rfl := same decoded
    rw [winning.live] at dead
    cases dead
  | unusable other decoded _ _ none_ result =>
    obtain rfl := same decoded
    simp only [none_]
    exact result
  | seen other text decoded _ _ usable edit seen result =>
    obtain rfl := same decoded
    subst result
    simp only [usable]
    exact .inr ⟨rfl, seeAgain_contents _ _ _, fun _ held => modify_clean held, .inr ⟨seen, edit, rfl⟩⟩
  | held other text pending decoded _ _ usable fresh named hold held effects =>
    obtain rfl := same decoded
    subst named
    simp only [usable]
    refine .inr ⟨effects, ?_, ?_, .inl ⟨⟨pending, ?_, rfl⟩, held, fresh⟩⟩
    · rw [hold]
      exact hold_contents _ _
    · rw [hold]
      exact fun _ held => modify_clean held
    · rw [hold]
      exact BTreeMap.get?_insert_self _ _ _
  | applied other text decoded _ _ usable approved _ held effects =>
    obtain rfl := same decoded
    simp only [usable]
    exact .inl ⟨approved, effects, held⟩

/-- In every pull of a run, a text with gated settings is written only over a block with the same ones,
a winning revision is written, held back or has no usable text, and what is withheld after the run goes
out only if the cache had it from the start. -/
theorem held_revisions_stay_out (P : Primitives) (u : Text.UnicodeTables) (keys : ChainKeys)
    (deviceName : String → String) (space : SpaceState) (pulls : List Pull) :
    (∀ before pull after, pulls = before ++ pull :: after →
      (∀ alias_ text, HostEffect.Upsert alias_ text ∈ (mergeSpace P u keys
          (spaceAfter P u keys deviceName space before) pull.pulled pull.applied deviceName).effects →
        Approved u pull.applied alias_ text) ∧
      ∀ done env rest, pull.pulled.records = done ++ env :: rest → ∀ record,
        let current := spaceAfter P u keys deviceName space before
        let out := mergedAfter P u keys deviceName current pull.applied done
        let out' := mergedAfter P u keys deviceName current pull.applied (done ++ [env])
        Winning P keys out env record → Outcome u pull.applied out out' record) ∧
    ∀ record, (spaceAfter P u keys deviceName space pulls).Withholds record →
      ∀ key row, (key, row) ∈ (spaceAfter P u keys deviceName space pulls).outgoingRows → row.record = record →
        ∃ old, space.records[key]? = some old ∧ old.record = record ∧
          (key = recordKey .Host record.id → space.Withholds record) := by
  refine ⟨fun before pull after _ => ⟨fun alias_ text effect => ?_, ?_⟩, ?_⟩
  · exact mergedAfter_approved pull.pulled.records effect
  · intro done env rest _ record current out out' winning
    have step : out' = mergeEnvelope P u keys pull.applied deviceName out env := mergedAfter_append
    have handled : Handled P u keys pull.applied out env out' := by
      rw [step]
      exact mergeEnvelope_handled out env
    exact handled.outcome winning
  · intro record withheld key row outgoing same
    obtain ⟨member, _⟩ := List.mem_filter.mp outgoing
    exact (spaceAfter_staysOut space pulls).withheld record withheld key row (BTreeMap.mem_toList.mp member) same

namespace Sample

open Sync.Sample (keys device)
open HostsFile.Sample (asciiTables)

def proxyText : String := "Host web\n  ProxyCommand nc\n"

def hostRecord (text : String) : Record :=
  { kind := .Host, id := "web", version := 1, updatedAtMs := 10, deviceId := device, deleted := false
    payload := .obj [("schema", .num 1), ("text", .str text)] }

/-- The hash of the alias and the texts of the sample records. -/
def table : Primitives :=
  tablePrimitives [("host\nweb", "0a")]
    [("proxy", (hostRecord proxyText).toJson), ("empty", (hostRecord "").toJson)]

def envelope (name : String) : Envelope :=
  { idHash := "0a", kind := "host", seq := 1, nonce := "n", ciphertext := "n" ++ name, deleted := false }

def emptySpace : SpaceState :=
  { cursorSeq := 0, records := ∅, pendingApprovals := ∅, declined := ∅, republish := ∅ }

def start : SpaceMerged :=
  { «section» := emptySpace, effects := [], conflicts := [], held := [], skipped := 0 }

def pull (name : String) : Pull := { pulled := { records := [envelope name], latestSeq := 1 }, applied := [] }

end Sample

/-- A new host with a proxy command waits for approval. -/
theorem proxied_host_held_back :
    Winning Sample.table Sync.Sample.keys Sample.start (Sample.envelope "proxy") (Sample.hostRecord Sample.proxyText) ∧
    Outcome HostsFile.Sample.asciiTables [] Sample.start
      (mergedAfter Sample.table HostsFile.Sample.asciiTables Sync.Sample.keys id Sample.emptySpace []
        [Sample.envelope "proxy"]) (Sample.hostRecord Sample.proxyText) := by
  have winning : Winning Sample.table Sync.Sample.keys Sample.start (Sample.envelope "proxy")
      (Sample.hostRecord Sample.proxyText) := ⟨by decide +kernel, rfl, by decide +kernel⟩
  have run := held_revisions_stay_out Sample.table HostsFile.Sample.asciiTables Sync.Sample.keys id
    Sample.emptySpace [Sample.pull "proxy"]
  exact ⟨winning, (run.1 [] (Sample.pull "proxy") [] rfl).2 [] (Sample.envelope "proxy") [] rfl _ winning⟩

/-- A live revision wins, is not applied, and is stored nowhere: its text is no host block. -/
theorem empty_text_stored_nowhere :
    let out' := mergedAfter Sample.table HostsFile.Sample.asciiTables Sync.Sample.keys id Sample.emptySpace []
      [Sample.envelope "empty"]
    Winning Sample.table Sync.Sample.keys Sample.start (Sample.envelope "empty") (Sample.hostRecord "") ∧
      out'.effects = [] ∧ out'.section.pendingApprovals[("web" : String)]? = none ∧
      Sample.start.section.seen (Sample.hostRecord "") = false := by
  refine ⟨⟨?_, rfl, ?_⟩, ?_, ?_, ?_⟩
  all_goals decide +kernel

end Sshelter.Sync.V2
