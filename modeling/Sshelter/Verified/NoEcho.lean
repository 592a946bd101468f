import Sshelter.Verified.PulledFile

/-! # Applying a pull plans nothing

A file that had nothing to plan is in step with the cache, and stays so while a pull is
merged.  So a later diff finds something to upload exactly where a cached text lacks the
final newline, or where the written file loses the empty last line of its last block.
-/

namespace Sshelter.Sync.V2

open HostsFile Approval Config

variable {P : Primitives} {u : Text.UnicodeTables} {keys : ChainKeys} {applied : List HostBlockText}
  {deviceName : String → String}

/-! ## Agreement of file and cache -/

theorem appliedText_eq_some {blocks : List HostBlockText} (distinct : (blocks.map (·.aliasName)).Nodup)
    {block : HostBlockText} (member : block ∈ blocks) : appliedText blocks block.aliasName = some block.text := by
  unfold appliedText
  cases found : blocks.find? fun other => other.aliasName == block.aliasName with
  | none =>
    have apart := List.find?_eq_none.mp found block member
    simp at apart
  | some other =>
    have same : other.aliasName = block.aliasName := by simpa using List.find?_some found
    obtain rfl := List.inj_on_of_nodup_map distinct (List.mem_of_find?_eq_some found) member same
    rfl

theorem exists_block_of_appliedText {blocks : List HostBlockText} {alias_ text : String}
    (found : appliedText blocks alias_ = some text) : ∃ block ∈ blocks, block.aliasName = alias_ ∧ block.text = text := by
  unfold appliedText at found
  obtain ⟨block, here, rfl⟩ := Option.map_eq_some_iff.mp found
  exact ⟨block, List.mem_of_find?_eq_some here, by simpa using List.find?_some here, rfl⟩

/-- File and cache agree about an alias when both have the same text, or neither has one and no
live host is cached. -/
theorem not_differs_iff {records : BTreeMap LocalRecord} {blocks : List HostBlockText}
    (distinct : (blocks.map (·.aliasName)).Nodup) (alias_ : String) :
    ¬ Differs records blocks alias_ ↔ appliedText blocks alias_ = cachedText records alias_ ∧
      (HasLive records alias_ → ∃ text, cachedText records alias_ = some text) := by
  have liveOf (text : String) (cached : cachedText records alias_ = some text) : HasLive records alias_ := by
    unfold cachedText at cached
    obtain ⟨record, live, -⟩ := Option.bind_eq_some_iff.mp cached
    obtain ⟨found, live⟩ := Option.filter_eq_some_iff.mp live
    obtain ⟨row, held, rfl⟩ := Option.map_eq_some_iff.mp found
    exact ⟨row, held, by simpa using live⟩
  constructor
  · intro agree
    have readable : HasLive records alias_ → ∃ text, cachedText records alias_ = some text := by
      intro live
      by_cases present : ∃ block ∈ blocks, block.aliasName = alias_
      · obtain ⟨block, member, rfl⟩ := present
        by_contra none_
        exact agree (.inl ⟨block, member, rfl, fun cached => none_ ⟨_, cached⟩⟩)
      · exact absurd (.inr ⟨live, fun block member same => present ⟨_, member, same⟩⟩) agree
    refine ⟨?_, readable⟩
    cases shown : appliedText blocks alias_ with
    | some text =>
      obtain ⟨block, member, rfl, rfl⟩ := exists_block_of_appliedText shown
      by_contra differ
      exact agree (.inl ⟨block, member, rfl, fun cached => differ cached.symm⟩)
    | none =>
      cases cached : cachedText records alias_ with
      | none => rfl
      | some text =>
        refine absurd (.inr ⟨liveOf text cached, fun block member same => ?_⟩) agree
        rw [← same, appliedText_eq_some distinct member] at shown
        cases shown
  · rintro ⟨same, readable⟩ (⟨block, member, rfl, changed⟩ | ⟨live, absent⟩)
    · rw [appliedText_eq_some distinct member] at same
      exact changed same.symm
    · obtain ⟨text, cached⟩ := readable live
      obtain ⟨block, member, named, -⟩ := exists_block_of_appliedText (same.trans cached)
      exact absent block member named

theorem distinct_blocksOf {items : List Item} (named : NamedBlocks items) :
    ((blocksOf items).map (·.aliasName)).Nodup := by
  have aliases : (blocksOf items).map (·.aliasName) = (items.filterMap firstAlias).map String.ofList := by
    rw [blocksOf, List.map_filterMap, List.map_filterMap]
    refine List.filterMap_congr fun item member => ?_
    rw [named.blockOf_eq member]
    cases firstAlias item <;> rfl
  rw [aliases]
  exact named.distinct.map fun _ _ equal => String.ofList_injective equal

theorem closeLine_textAt {items : List Item} {alias_ text : List Char} (shown : textAt items alias_ = some text) :
    closeLine text = text := by
  obtain ⟨item, -, rfl⟩ := Option.map_eq_some_iff.mp shown
  exact closeLine_eq_self.mpr (getLast?_blockText item)

/-- A file with nothing to plan is in step with the cache, and all its texts end their last line. -/
theorem inStep_of_quiet {records : BTreeMap LocalRecord} {items : List Item} (lined : Lined u items)
    (named : NamedBlocks items) (quiet : ∀ alias_, ¬ Differs records (blocksOf items) alias_) :
    InStep u records items ∧ ∀ alias_ text, cachedText records alias_ = some text →
      text.toList.getLast? = some '\n' := by
  have agree (alias_ : String) := (not_differs_iff (distinct_blocksOf named) alias_).mp (quiet alias_)
  have shown (alias_ : String) : (textAt items alias_.toList).map String.ofList = cachedText records alias_ := by
    rw [← appliedText_blocksOf named]
    exact (agree alias_).1
  constructor
  · refine ⟨lined, named, fun alias_ => ?_, fun alias_ => (agree alias_).2⟩
    rw [← shown alias_]
    cases text : textAt items alias_.toList with
    | none => rfl
    | some text => simp [closeLine_textAt ‹_›]
  · intro alias_ text cached
    rw [← shown alias_] at cached
    obtain ⟨chars, here, rfl⟩ := Option.map_eq_some_iff.mp cached
    rw [String.toList_ofList]
    exact closeLine_eq_self.mp (closeLine_textAt here)

/-- In step, nothing differs exactly when every cached text ends its last line. -/
theorem quiet_iff_of_inStep {records : BTreeMap LocalRecord} {items : List Item} (step : InStep u records items) :
    (∀ alias_, ¬ Differs records (blocksOf items) alias_) ↔
      ∀ alias_ text, cachedText records alias_ = some text → text.toList.getLast? = some '\n' := by
  constructor
  · exact fun quiet => (inStep_of_quiet step.lined step.named quiet).2
  · intro ended alias_
    refine (not_differs_iff (distinct_blocksOf step.named) alias_).mpr ⟨?_, step.readable alias_⟩
    rw [appliedText_blocksOf step.named, step.shown]
    cases cached : cachedText records alias_ with
    | none => rfl
    | some text =>
      have whole : closeLine text.toList = text.toList := closeLine_eq_self.mpr (ended alias_ text cached)
      simp [whole]

theorem NamedBlocks.apart_last {above : List Item} {item : Item} {alias_ : List Char}
    (named : NamedBlocks (above ++ [item])) (here : firstAlias item = some alias_) :
    ∀ other ∈ above, firstAlias other ≠ some alias_ := by
  intro other member again
  have distinct := named.distinct
  rw [List.filterMap_append] at distinct
  exact (List.nodup_append.mp distinct).2.2 alias_ (List.mem_filterMap.mpr ⟨other, member, again⟩) alias_
    (by simp [here]) rfl

/-- The text of the last block is the cached one. -/
theorem InStep.last_text {records : BTreeMap LocalRecord} {above : List Item} {item : Item} {alias_ : String}
    (step : InStep u records (above ++ [item])) (here : firstAlias item = some alias_.toList) :
    ∃ text, cachedText records alias_ = some text ∧ closeLine text.toList = blockText item := by
  have shown := step.shown alias_
  rw [textAt_middle (step.named.apart_last here) here, eq_comm, Option.map_eq_some_iff] at shown
  exact shown

/-- The file ends in an empty line exactly when the cached text of its last host does. -/
theorem InStep.endsInEmptyLine {records : BTreeMap LocalRecord} {items : List Item} (step : InStep u records items) :
    EndsInEmptyLine items ↔ ∃ alias_ : String, (items.map firstAlias).getLast? = some (some alias_.toList) ∧
      ∃ text, cachedText records alias_ = some text ∧ EndsBlank text.toList := by
  constructor
  · intro ends
    obtain ⟨above, header, patterns, body, rfl⟩ := ends
    have syncable := step.named.named _ _ _ (List.mem_append_right above (List.mem_singleton_self _))
    cases patterns with
    | nil => cases syncable
    | cons name more =>
      have here : firstAlias (.Host header (name :: more) (body ++ [.Blank []])) = some (String.ofList name).toList := by
        rw [String.toList_ofList]
        rfl
      obtain ⟨text, cached, whole⟩ := step.last_text here
      refine ⟨String.ofList name, by simp [here], text, cached, endsBlank_closeLine.mp ?_⟩
      rw [whole]
      exact (endsInEmptyLine_iff step.lined here).mp ⟨above, header, name :: more, body, rfl⟩
  · rintro ⟨alias_, last, text, cached, blank⟩
    rw [List.getLast?_map, Option.map_eq_some_iff] at last
    obtain ⟨item, isLast, here⟩ := last
    obtain ⟨above, rfl⟩ : ∃ above, items = above ++ [item] := ⟨_, (List.dropLast_append_getLast? _ isLast).symm⟩
    obtain ⟨other, cached', whole⟩ := step.last_text here
    obtain rfl := Option.some.inj (cached.symm.trans cached')
    rw [endsInEmptyLine_iff step.lined here, ← whole]
    exact endsBlank_closeLine.mpr blank

/-- The lost last line of the file is planned as a local edit. -/
theorem differs_of_lost_line {records : BTreeMap LocalRecord} {above body : List Item} {header : Directive}
    {patterns : List (List Char)}
    (step : InStep u records (above ++ [.Host header patterns (body ++ [.Blank []])])) :
    ∃ alias_, Differs records (blocksOf (above ++ [.Host header patterns body])) alias_ := by
  have syncable := step.named.named _ _ _ (List.mem_append_right above (List.mem_singleton_self _))
  cases patterns with
  | nil => cases syncable
  | cons alias_ more =>
    have here : firstAlias (.Host header (alias_ :: more) (body ++ [.Blank []])) = some (String.ofList alias_).toList := by
      rw [String.toList_ofList]
      rfl
    obtain ⟨text, cached, ended⟩ := step.last_text here
    rw [blockText_concat_blank] at ended
    let block : HostBlockText :=
      { aliasName := String.ofList alias_, text := String.ofList (blockText (.Host header (alias_ :: more) body)) }
    have member : block ∈ blocksOf (above ++ [.Host header (alias_ :: more) body]) := by
      simp [blocksOf, blockOf, syncable, block]
    refine ⟨String.ofList alias_, .inl ⟨block, member, rfl, ?_⟩⟩
    -- the text without the line is closed, so it is not the cached one
    rw [cached]
    intro same
    have equal : text.toList = blockText (.Host header (alias_ :: more) body) := by
      rw [Option.some.inj same, String.toList_ofList]
    rw [equal, closeLine_eq_self.mpr (getLast?_blockText _)] at ended
    simp at ended

/-! ## The texts a pull leaves -/

section Left
variable (P u keys deviceName)

/-- No record of `rest`, merged after `done`, changes the block of the alias. -/
def Untouched (space : SpaceState) (applied : List HostBlockText) (done rest : List Envelope) (alias_ : String) :
    Prop :=
  ∀ mid env after, rest = mid ++ env :: after →
    ¬ Touches P u keys applied (mergedAfter P u keys deviceName space applied (done ++ mid)).section env alias_

/-- The text that the host has once all is merged: that of the file when no record changes the host, else
the last one written. -/
def LeavesText (space : SpaceState) (applied : List HostBlockText) (envelopes : List Envelope)
    (alias_ text : String) : Prop :=
  (appliedText applied alias_ = some text ∧ Untouched P u keys deviceName space applied [] envelopes alias_) ∨
    ∃ done env rest record, envelopes = done ++ env :: rest ∧ record.id = alias_ ∧
      Writes P u keys applied (mergedAfter P u keys deviceName space applied done).section env record text ∧
      Untouched P u keys deviceName space applied (done ++ [env]) rest alias_

/-- Every text that is written ends its last line, unless a later record of the pull changes the
same host. -/
def LeavesClosedTexts (space : SpaceState) (applied : List HostBlockText) (envelopes : List Envelope) : Prop :=
  ∀ done env rest, envelopes = done ++ env :: rest → ∀ record text,
    Writes P u keys applied (mergedAfter P u keys deviceName space applied done).section env record text →
    Untouched P u keys deviceName space applied (done ++ [env]) rest record.id →
    text.toList.getLast? = some '\n'

end Left

theorem cachedText_untouched {space : SpaceState} {done rest : List Envelope} {alias_ : String}
    (untouched : Untouched P u keys deviceName space applied done rest alias_) :
    cachedText (mergedAfter P u keys deviceName space applied (done ++ rest)).section.records alias_ =
      cachedText (mergedAfter P u keys deviceName space applied done).section.records alias_ := by
  induction rest using List.reverseRecOn with
  | nil => rw [List.append_nil]
  | append_singleton rest env ih =>
    have earlier : Untouched P u keys deviceName space applied done rest alias_ := by
      rintro mid env' after rfl
      exact untouched mid env' (after ++ [env]) (by simp)
    have this := untouched rest env [] rfl
    rw [← List.append_assoc, mergedAfter_append, ← ih earlier]
    set out := mergedAfter P u keys deviceName space applied (done ++ rest)
    have moves : Moves P u keys applied out env (mergeEnvelope P u keys applied deviceName out env) :=
      mergeEnvelope_moves out env
    cases moves with
    | written record text writes taken =>
      rw [taken]
      exact cachedText_take_other _ _ fun same => this ⟨record, same, .inr ⟨text, writes⟩⟩
    | removed record removes taken =>
      rw [taken]
      exact cachedText_take_other _ _ fun same => this ⟨record, same, .inl removes⟩
    | neither _ contents => exact contents.cachedText alias_

theorem Untouched.concat {space : SpaceState} {done rest : List Envelope} {env : Envelope} {alias_ : String}
    (untouched : Untouched P u keys deviceName space applied done rest alias_)
    (last : ¬ Touches P u keys applied (mergedAfter P u keys deviceName space applied (done ++ rest)).section env alias_) :
    Untouched P u keys deviceName space applied done (rest ++ [env]) alias_ := by
  intro mid later after parts
  obtain ⟨front, parts', back⟩ | ⟨front, parts', back⟩ := List.append_eq_append_iff.mp parts
  · cases front with
    | nil =>
      obtain ⟨rfl, rfl⟩ := List.cons.inj back
      rw [parts', List.append_nil]
      exact last
    | cons first more => simp at back
  · cases front with
    | nil =>
      obtain ⟨rfl, rfl⟩ := List.cons.inj back
      rw [List.append_nil] at parts'
      exact parts' ▸ last
    | cons first more =>
      obtain ⟨rfl, rfl⟩ := List.cons.inj back
      exact untouched mid later more parts'

/-- A cached text was there from the start and never changed, or is the last one written for its host. -/
theorem cachedText_origin {space : SpaceState} {alias_ text : String} (envelopes : List Envelope)
    (cached : cachedText (mergedAfter P u keys deviceName space applied envelopes).section.records alias_ = some text) :
    (cachedText space.records alias_ = some text ∧ Untouched P u keys deviceName space applied [] envelopes alias_) ∨
      ∃ done env rest record, envelopes = done ++ env :: rest ∧ record.id = alias_ ∧
        Writes P u keys applied (mergedAfter P u keys deviceName space applied done).section env record text ∧
        Untouched P u keys deviceName space applied (done ++ [env]) rest alias_ := by
  induction envelopes using List.reverseRecOn with
  | nil => exact .inl ⟨cached, by intro mid env after parts; simp at parts⟩
  | append_singleton envelopes env ih =>
    rw [mergedAfter_append] at cached
    set out := mergedAfter P u keys deviceName space applied envelopes with outDef
    -- a record that leaves the alias alone adds one to those after the last write
    have keep (before : cachedText out.section.records alias_ = some text)
        (this : ¬ Touches P u keys applied out.section env alias_) :
        (cachedText space.records alias_ = some text ∧
            Untouched P u keys deviceName space applied [] (envelopes ++ [env]) alias_) ∨
          ∃ done env' rest record, envelopes ++ [env] = done ++ env' :: rest ∧ record.id = alias_ ∧
            Writes P u keys applied (mergedAfter P u keys deviceName space applied done).section env' record text ∧
            Untouched P u keys deviceName space applied (done ++ [env']) rest alias_ := by
      refine (ih before).imp ?_ ?_
      · rintro ⟨first, untouched⟩
        exact ⟨first, untouched.concat this⟩
      · rintro ⟨done, env', rest, record, rfl, named, writes, untouched⟩
        refine ⟨done, env', rest ++ [env], record, by simp, named, writes, untouched.concat ?_⟩
        rw [List.append_assoc, List.singleton_append]
        exact this
    have moves : Moves P u keys applied out env (mergeEnvelope P u keys applied deviceName out env) :=
      mergeEnvelope_moves out env
    cases moves with
    | written record other writes taken =>
      rw [taken] at cached
      by_cases same : record.id = alias_
      · subst same
        rw [cachedText_take_live _ _ writes.live writes.usable] at cached
        obtain rfl := Option.some.inj cached
        exact .inr ⟨envelopes, env, [], record, rfl, rfl, writes, by intro mid env' after parts; simp at parts⟩
      · rw [cachedText_take_other _ _ same] at cached
        exact keep cached fun touches => same (touches.named writes.decoded)
    | removed record removes taken =>
      rw [taken] at cached
      by_cases same : record.id = alias_
      · subst same
        rw [cachedText_take_dead _ _ removes.dead] at cached
        cases cached
      · rw [cachedText_take_other _ _ same] at cached
        exact keep cached fun touches => same (touches.named removes.decoded)
    | neither untouched contents =>
      rw [contents.cachedText] at cached
      exact keep cached (untouched alias_)

/-- The text that is written last for a host is the cached one in the end. -/
theorem cachedText_written {space : SpaceState} {done rest : List Envelope} {env : Envelope} {record : Record}
    {text : String}
    (writes : Writes P u keys applied (mergedAfter P u keys deviceName space applied done).section env record text)
    (untouched : Untouched P u keys deviceName space applied (done ++ [env]) rest record.id) :
    cachedText (mergedAfter P u keys deviceName space applied (done ++ env :: rest)).section.records record.id =
      some text := by
  rw [List.append_cons, cachedText_untouched untouched, mergedAfter_append]
  have moves : Moves P u keys applied (mergedAfter P u keys deviceName space applied done) env
      (mergeEnvelope P u keys applied deviceName (mergedAfter P u keys deviceName space applied done) env) :=
    mergeEnvelope_moves _ env
  cases moves with
  | written other text' writes' taken =>
    obtain rfl := Option.some.inj (writes.decoded.symm.trans writes'.decoded)
    obtain rfl := Option.some.inj (writes.usable.symm.trans writes'.usable)
    rw [taken]
    exact cachedText_take_live _ _ writes.live writes.usable
  | removed other removes =>
    obtain rfl := Option.some.inj (writes.decoded.symm.trans removes.decoded)
    have dead := removes.dead
    rw [writes.live] at dead
    cases dead
  | neither untouched => exact absurd ⟨record, rfl, .inr ⟨text, writes⟩⟩ (untouched record.id)

/-- In a file that shows the cached texts, a pull leaves the cached texts of its end. -/
theorem leavesText_iff {space : SpaceState} {envelopes : List Envelope} {alias_ text : String}
    (start : appliedText applied alias_ = cachedText space.records alias_) :
    LeavesText P u keys deviceName space applied envelopes alias_ text ↔
      cachedText (mergedAfter P u keys deviceName space applied envelopes).section.records alias_ = some text := by
  rw [LeavesText, start]
  constructor
  · rintro (⟨first, untouched⟩ | ⟨done, env, rest, record, rfl, rfl, writes, untouched⟩)
    · have same := cachedText_untouched untouched
      rw [List.nil_append] at same
      rw [same]
      exact first
    · exact cachedText_written writes untouched
  · exact cachedText_origin envelopes

theorem leavesClosedTexts_iff {space : SpaceState} {envelopes : List Envelope}
    (start : ∀ alias_ text, cachedText space.records alias_ = some text → text.toList.getLast? = some '\n') :
    (∀ alias_ text, cachedText (mergedAfter P u keys deviceName space applied envelopes).section.records alias_ =
        some text → text.toList.getLast? = some '\n') ↔
      LeavesClosedTexts P u keys deviceName space applied envelopes := by
  constructor
  · rintro closed done env rest rfl record text writes untouched
    exact closed record.id text (cachedText_written writes untouched)
  · intro closed alias_ text cached
    obtain ⟨first, -⟩ | ⟨done, env, rest, record, parts, rfl, writes, untouched⟩ := cachedText_origin envelopes cached
    · exact start alias_ text first
    · exact closed done env rest parts record text writes untouched

/-! ## The file afterwards -/

theorem planHosts_eq_zero {space : SpaceState} (keyed : space.Keyed) (blocks : List HostBlockText) (deviceId : String)
    (changedAt : String → Nat) :
    (planHosts space blocks deviceId changedAt).2 = 0 ↔ ∀ alias_, ¬ Differs space.records blocks alias_ := by
  rw [planHosts, List.length_eq_zero_iff]
  exact plannedRecords_eq_nil keyed

theorem parseFile_isEmpty {text : List Char} : (parseFile u text).1.isEmpty = true ↔ text = [] := by
  unfold parseFile
  by_cases empty : text = []
  · subst empty
    exact iff_of_true rfl rfl
  · refine iff_of_false ?_ empty
    rw [if_neg (by simpa using empty), List.isEmpty_iff, groupBlocks_eq_nil, List.map_eq_nil_iff,
      splitOnP_newline]
    exact List.splitOn_ne_nil _ _

theorem parseFile_trailingNewline {text : List Char} :
    (parseFile u text).2 = true ↔ text.getLast? = some '\n' := by
  unfold parseFile
  simp only
  split <;> simp

/-- A file that was read without a final newline has no empty last line. -/
theorem not_endsInEmptyLine {text : List Char} (open_ : text.getLast? ≠ some '\n') :
    ¬ EndsInEmptyLine (parseFile u text).1 := by
  rintro ⟨above, header, patterns, body, parts⟩
  obtain ⟨lines, -, grouped, closed⟩ := parseFile_lines_read u text
  have last : pushItems (parseFile u text).1 = lines := by
    rw [grouped, pushItems_groupBlocks, pushItems_flatItem]
  rw [parts, pushItems_append, pushItems, itemLines, pushItems_append] at last
  refine closed ?_ ?_
  · rw [← Bool.not_eq_true, parseFile_trailingNewline]
    exact open_
  · rw [← last]
    simp [pushItems, itemLines, List.getLast?_cons]

/-- The file keeps its last line: it is new, it ends with a newline, or the text that the pull leaves
for the last host does not end in an empty line. -/
def KeepsLastLine (P : Primitives) (u : Text.UnicodeTables) (keys : ChainKeys) (deviceName : String → String)
    (space : SpaceState) (text : List Char) (envelopes : List Envelope) : Prop :=
  let items := (parseFile u text).1
  text = [] ∨ text.getLast? = some '\n' ∨ ∀ alias_ last,
    LastHost P u keys deviceName space (blocksOf items) (items.map firstAlias) [] envelopes alias_ →
    LeavesText P u keys deviceName space (blocksOf items) envelopes alias_ last → ¬ EndsBlank last.toList

/-- With the effects applied, file and cache agree exactly when every cached text ends its last
line and the file does not lose its own. -/
theorem quiet_after_effects {text : List Char} {out : SpaceMerged} {items' : List Item} {changed : Bool}
    (carried : Carried u (parseFile u text).1 out items' changed) :
    ∃ text', applyAndCommitSpace u text out.effects = .ok text' ∧
      ((∀ alias_, ¬ Differs out.section.records (blocksOf (parseFile u text').1) alias_) ↔
        (∀ alias_ text, cachedText out.section.records alias_ = some text → text.toList.getLast? = some '\n') ∧
          (text = [] ∨ text.getLast? = some '\n' ∨ ¬ EndsInEmptyLine items')) := by
  have committed : applyAndCommitSpace u text out.effects = .ok
      (if changed then serializeItems items' ((parseFile u text).2 || (parseFile u text).1.isEmpty) else text) := by
    unfold applyAndCommitSpace
    simp only [carried.result]
    cases changed <;> rfl
  refine ⟨_, committed, ?_⟩
  cases changed with
  | false =>
    -- nothing is written
    obtain rfl := carried.same rfl
    rw [if_neg Bool.false_ne_true, quiet_iff_of_inStep carried.step]
    refine (and_iff_left ?_).symm
    by_cases ended : text.getLast? = some '\n'
    · exact .inr (.inl ended)
    · exact .inr (.inr (not_endsInEmptyLine ended))
  | true =>
    rw [if_pos rfl]
    by_cases newline : ((parseFile u text).2 || (parseFile u text).1.isEmpty) = true
    · have keeps : text = [] ∨ text.getLast? = some '\n' := by
        rw [Bool.or_eq_true, parseFile_trailingNewline, parseFile_isEmpty] at newline
        exact newline.symm
      rw [blocksOf_read_back carried.step.lined (.inl newline), quiet_iff_of_inStep carried.step]
      exact (and_iff_left (keeps.imp_right .inl)).symm
    · have open_ : text ≠ [] ∧ text.getLast? ≠ some '\n' := by
        rw [Bool.or_eq_true, parseFile_trailingNewline, parseFile_isEmpty, not_or] at newline
        exact newline.symm
      by_cases ends : EndsInEmptyLine items'
      · obtain ⟨above, header, patterns, body, rfl⟩ := ends
        obtain ⟨alias_, differs⟩ := differs_of_lost_line carried.step
        rw [Bool.not_eq_true] at newline
        rw [newline, parseFile_lost_line carried.step.lined]
        refine iff_of_false (fun quiet => quiet alias_ differs) ?_
        rintro ⟨-, empty | ended | short⟩
        · exact open_.1 empty
        · exact open_.2 ended
        · exact short ⟨_, _, _, _, rfl⟩
      · rw [blocksOf_read_back carried.step.lined (.inr ends), quiet_iff_of_inStep carried.step]
        exact (and_iff_left (.inr (.inr ends))).symm

/-- After a pull is merged and applied to a file that had nothing to plan, there is again nothing
to plan exactly when the texts it leaves end their last line and the file keeps its own. -/
theorem applied_pull_plans_nothing_iff (P : Primitives) (u : Text.UnicodeTables) (keys : ChainKeys)
    (deviceName : String → String) {space : SpaceState} {text : List Char} (pulled : PullResponse)
    (deviceId deviceId' : String) (changedAt changedAt' : String → Nat) (keyed : space.Keyed)
    (managed : checkManagedItems u (parseFile u text).1 = .ok ())
    (quiet : (planHosts space (blocksOf (parseFile u text).1) deviceId changedAt).2 = 0) :
    let blocks := blocksOf (parseFile u text).1
    let merged := mergeSpace P u keys space pulled blocks deviceName
    (∃ text', applyAndCommitSpace u text merged.effects = .ok text' ∧
        (planHosts merged.section (blocksOf (parseFile u text').1) deviceId' changedAt').2 = 0) ↔
      LeavesClosedTexts P u keys deviceName space blocks pulled.records ∧
        KeepsLastLine P u keys deviceName space text pulled.records := by
  intro blocks merged
  have named := namedBlocks_of_managed managed
  have agree := (planHosts_eq_zero keyed _ _ _).mp quiet
  obtain ⟨start, closed⟩ := inStep_of_quiet (lined_parseFile u text) named agree
  have contents : SameContents (mergedAfter P u keys deviceName space blocks pulled.records).section
      merged.section := mergeSpace_contents space pulled
  have effects : (mergedAfter P u keys deviceName space blocks pulled.records).effects = merged.effects := rfl
  obtain ⟨items', changed, carried⟩ : ∃ items' changed, Carried u (parseFile u text).1
      (mergedAfter P u keys deviceName space blocks pulled.records) items' changed :=
    mergedAfter_carried start pulled.records
  have carried' : Carried u (parseFile u text).1 merged items' changed :=
    ⟨carried.result, carried.step.of_contents contents, carried.same⟩
  obtain ⟨text', committed, settled⟩ := quiet_after_effects carried'
  -- the two sides of the condition, read off the texts that the pull leaves
  have ended : (∀ alias_ text, cachedText merged.section.records alias_ = some text →
      text.toList.getLast? = some '\n') ↔ LeavesClosedTexts P u keys deviceName space blocks pulled.records := by
    simp only [contents.cachedText]
    exact leavesClosedTexts_iff closed
  have lastLine : EndsInEmptyLine items' ↔ ∃ alias_, LastHost P u keys deviceName space blocks
      ((parseFile u text).1.map firstAlias) [] pulled.records alias_ ∧ ∃ last,
        LeavesText P u keys deviceName space blocks pulled.records alias_ last ∧ EndsBlank last.toList := by
    have first : Carried u (parseFile u text).1 (mergedAfter P u keys deviceName space blocks []) (parseFile u text).1
      false := ⟨rfl, start, fun _ => rfl⟩
    have same (name : String) : appliedText blocks name = cachedText space.records name :=
      ((not_differs_iff (distinct_blocksOf named) name).mp (agree name)).1
    exact carried.step.endsInEmptyLine.trans (exists_congr fun name => and_congr (lastHost_iff first carried)
      (exists_congr fun last => and_congr_left' (leavesText_iff (same name)).symm))
  have keeps : KeepsLastLine P u keys deviceName space text pulled.records ↔
      (text = [] ∨ text.getLast? = some '\n' ∨ ¬ EndsInEmptyLine items') := by
    rw [KeepsLastLine, lastLine]
    simp only [not_exists, not_and]
    exact or_congr_right (or_congr_right ⟨fun all alias_ last text left => all alias_ text last left,
      fun all alias_ text last left => all alias_ last text left⟩)
  have keyed' : merged.section.Keyed := contents.keyed (mergedAfter_keyed keyed pulled.records)
  rw [keeps, ← ended, ← settled]
  simp only [committed, Except.ok.injEq, exists_eq_left', planHosts_eq_zero keyed']

namespace Sample

/-- A host whose text lacks the final newline, and the same host with it. -/
def lineTable : Primitives :=
  tablePrimitives [("host\nweb", "0a")]
    [("open", (hostRecord "Host web").toJson), ("closed", (hostRecord "Host web\n").toJson)]

def newFile : List Item := (parseFile HostsFile.Sample.asciiTables []).1

/-- The new space after pulling one of the hosts. -/
def pulledHost (name : String) : SpaceMerged :=
  mergeSpace lineTable HostsFile.Sample.asciiTables Sync.Sample.keys emptySpace (pull name).pulled (blocksOf newFile) id

theorem emptySpace_keyed : emptySpace.Keyed := by
  intro key row held
  simp [emptySpace] at held

end Sample

/-- A host with its final newline is pulled into a new space, and nothing is planned. -/
theorem closed_text_plans_nothing :
    ∃ text', applyAndCommitSpace HostsFile.Sample.asciiTables [] (Sample.pulledHost "closed").effects = .ok text' ∧
      (planHosts (Sample.pulledHost "closed").section
        (blocksOf (parseFile HostsFile.Sample.asciiTables text').1) "this" fun _ => 5).2 = 0 := by
  refine (applied_pull_plans_nothing_iff Sample.lineTable HostsFile.Sample.asciiTables Sync.Sample.keys id
    (Sample.pull "closed").pulled "this" "this" (fun _ => 5) (fun _ => 5) Sample.emptySpace_keyed
    (show checkManagedItems _ (parseFile _ []).1 = .ok () by decide +kernel) (by decide +kernel)).mpr ⟨?_, .inl rfl⟩
  intro done env rest parts record text writes _
  obtain ⟨rfl, rfl, rfl⟩ : done = [] ∧ env = Sample.envelope "closed" ∧ rest = [] := by
    cases done with
    | nil => simpa [Sample.pull, eq_comm] using parts
    | cons first more => simp [Sample.pull] at parts
  have read : decodeHost Sample.lineTable Sync.Sample.keys (Sample.envelope "closed") =
      some (Sample.hostRecord "Host web\n") := by decide +kernel
  obtain rfl := Option.some.inj (read.symm.trans writes.decoded)
  have usable : hostText HostsFile.Sample.asciiTables (Sample.hostRecord "Host web\n") = some "Host web\n" := by
    decide +kernel
  obtain rfl := Option.some.inj (usable.symm.trans writes.usable)
  rfl

/-- A host without its final newline is pulled into a new space; the next diff plans it again. -/
theorem open_text_is_planned_again :
    Sample.emptySpace.Keyed ∧
    checkManagedItems HostsFile.Sample.asciiTables Sample.newFile = .ok () ∧
    (planHosts Sample.emptySpace (blocksOf Sample.newFile) "this" fun _ => 5).2 = 0 ∧
    applyAndCommitSpace HostsFile.Sample.asciiTables [] (Sample.pulledHost "open").effects =
      .ok "Host web\n".toList ∧
    (planHosts (Sample.pulledHost "open").section
      (blocksOf (parseFile HostsFile.Sample.asciiTables "Host web\n".toList).1) "this" fun _ => 5).2 = 1 := by
  refine ⟨Sample.emptySpace_keyed, ?_, ?_, ?_, ?_⟩
  all_goals decide +kernel

end Sshelter.Sync.V2
