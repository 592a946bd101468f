import Sshelter.Sync.SpaceFile
import Sshelter.Verified.ConfigText

/-! # Blocks of a space file

Replacing, adding and removing whole blocks of a parsed file leaves a list of items that a
parser could have read.  Written out, such a list is read back block by block, with one
exception: without a final newline, an empty last line of the last block is not seen again.
-/

namespace Sshelter.Config

open Text

variable {u : UnicodeTables}

/-! ## Items that a parser could have read -/

/-- The items of some lines without line ends. -/
def Lined (u : UnicodeTables) (items : List Item) : Prop :=
  ∃ lines : List (List Char), (∀ line ∈ lines, '\n' ∉ line) ∧ items = groupBlocks (lines.map (flatItem u))

/-- Items that are empty or begin with a block. -/
def Opens (items : List Item) : Prop := ∀ item, items.head? = some item → item.isBlock = true

theorem lined_parseFile (u : UnicodeTables) (text : List Char) : Lined u (parseFile u text).1 := by
  obtain ⟨lines, single, grouped, -⟩ := parseFile_lines_read u text
  exact ⟨lines, single, grouped⟩

theorem flat_not_block {lines : List (List Char)} : ∀ item ∈ lines.map (flatItem u), item.isBlock = false := by
  intro item member
  obtain ⟨line, -, rfl⟩ := List.mem_map.mp member
  exact flatItem_not_block u line

theorem isBlock_makeBlock (kind : HeaderKind) (header : Directive) (body : List Item) :
    (makeBlock kind header body).isBlock = true := by
  cases kind <;> rfl

theorem opens_groupBlocks {flat : List Item} (flat_ : ∀ item ∈ flat, item.isBlock = false) :
    Opens (groupBlocks flat) ↔ StartsBlock flat := by
  cases flat with
  | nil => simp [Opens, StartsBlock]
  | cons first rest =>
    cases kind : headerKind first with
    | none => simp [groupBlocks_plain kind, Opens, StartsBlock, kind, flat_ first List.mem_cons_self]
    | some found => simp [groupBlocks_header kind, Opens, StartsBlock, kind, isBlock_makeBlock]

theorem groupBlocks_eq_nil {flat : List Item} : groupBlocks flat = [] ↔ flat = [] := by
  cases flat with
  | nil => simp
  | cons first rest =>
    cases kind : headerKind first with
    | none => simp [groupBlocks_plain kind]
    | some found => simp [groupBlocks_header kind]

theorem Lined.append {items more : List Item} (lined : Lined u items) (linedMore : Lined u more)
    (opens : Opens more) : Lined u (items ++ more) := by
  obtain ⟨lines, single, rfl⟩ := lined
  obtain ⟨linesMore, singleMore, rfl⟩ := linedMore
  refine ⟨lines ++ linesMore, ?_, ?_⟩
  · intro line member
    exact (List.mem_append.mp member).elim (single line) (singleMore line)
  · rw [List.map_append, groupBlocks_append ((opens_groupBlocks flat_not_block).mp opens)]

/-- A block cuts the items in three. -/
theorem Lined.split {above below : List Item} {block : Item} (lined : Lined u (above ++ block :: below))
    (isBlock : block.isBlock = true) : Lined u above ∧ Lined u below ∧ Opens below := by
  obtain ⟨lines, single, grouped⟩ := lined
  obtain ⟨before, kind, header, body, after, parts, rfl, -, -, -, starts, rfl⟩ :=
    groupBlocks_eq_append flat_not_block isBlock grouped.symm
  obtain ⟨front, back, rfl, inFront, rfl⟩ := List.map_eq_append_iff.mp parts
  obtain ⟨top, middle, rfl, rfl, -⟩ := List.map_eq_append_iff.mp inFront
  refine ⟨⟨top, fun line member => single line ?_, rfl⟩, ⟨back, fun line member => single line ?_, rfl⟩, ?_⟩
  · exact List.mem_append_left _ (List.mem_append_left _ member)
  · exact List.mem_append_right _ member
  · exact (opens_groupBlocks flat_not_block).mpr starts

theorem Lined.remove {above below : List Item} {block : Item} (lined : Lined u (above ++ block :: below))
    (isBlock : block.isBlock = true) : Lined u (above ++ below) := by
  obtain ⟨linedAbove, linedBelow, opens⟩ := lined.split isBlock
  exact linedAbove.append linedBelow opens

theorem opens_block {block : Item} (isBlock : block.isBlock = true) (rest : List Item) : Opens (block :: rest) := by
  intro item first
  cases first
  exact isBlock

theorem Lined.replace {above below : List Item} {block incoming : Item}
    (lined : Lined u (above ++ block :: below)) (isBlock : block.isBlock = true)
    (linedIncoming : Lined u [incoming]) (isIncoming : incoming.isBlock = true) :
    Lined u (above ++ incoming :: below) := by
  obtain ⟨linedAbove, linedBelow, opens⟩ := lined.split isBlock
  exact linedAbove.append (linedIncoming.append linedBelow opens) (opens_block isIncoming below)

/-! ## Reading a written file -/

/-- The last block is a Host block whose last line is empty. -/
def EndsInEmptyLine (items : List Item) : Prop :=
  ∃ above header patterns body, items = above ++ [.Host header patterns (body ++ [.Blank []])]

theorem flatItem_nil (u : UnicodeTables) : flatItem u [] = .Blank [] := rfl

theorem eq_nil_of_flatItem {line : List Char} (blank : flatItem u line = .Blank []) : line = [] := by
  have lines := itemLines_flatItem u line
  rw [blank, itemLines] at lines
  exact (List.singleton_inj.mp lines).symm

/-- Lines with a header end in the block of the last one. -/
theorem exists_last_header {flat : List Item} (some_ : ∃ item ∈ flat, headerKind item ≠ none) :
    ∃ before kind header body, flat = before ++ .Directive header :: body ∧
      headerKind (.Directive header) = some (kind, header) ∧ ∀ item ∈ body, headerKind item = none := by
  induction flat using List.reverseRecOn with
  | nil => simp at some_
  | append_singleton flat last ih =>
    cases kind : headerKind last with
    | some found =>
      obtain rfl := headerKind_eq_some kind
      exact ⟨flat, found.1, found.2, [], rfl, kind, by simp⟩
    | none =>
      obtain ⟨item, member, header⟩ := some_
      have earlier : item ∈ flat := by
        obtain earlier | this := List.mem_append.mp member
        · exact earlier
        · rw [List.mem_singleton.mp this] at header
          exact absurd kind header
      obtain ⟨before, kind', header', body, rfl, hkind, plain⟩ := ih ⟨item, earlier, header⟩
      refine ⟨before, kind', header', body ++ [last], by simp, hkind, fun item member => ?_⟩
      obtain inBody | this := List.mem_append.mp member
      · exact plain item inBody
      · rw [List.mem_singleton.mp this, kind]

theorem groupBlocks_all_plain {flat : List Item} (plain : ∀ item ∈ flat, headerKind item = none) :
    groupBlocks flat = flat := by
  induction flat with
  | nil => simp
  | cons first rest ih =>
    rw [groupBlocks_plain (plain first List.mem_cons_self),
      ih fun item member => plain item (List.mem_cons_of_mem _ member)]

theorem groupBlocks_last {before body : List Item} {kind : HeaderKind} {header : Directive}
    (hkind : headerKind (.Directive header) = some (kind, header)) (plain : ∀ item ∈ body, headerKind item = none) :
    groupBlocks (before ++ .Directive header :: body) = groupBlocks before ++ [makeBlock kind header body] := by
  have starts : StartsBlock (.Directive header :: body) := by
    intro item first
    cases first
    rw [hkind]
    rfl
  rw [groupBlocks_append starts, groupBlocks_block hkind plain]

/-- The lines of a list of items, as a reader of the written file sees them. -/
theorem Lined.parse_serialize {items : List Item} (lined : Lined u items) (some_ : items ≠ []) (trailingNewline : Bool) :
    (parseFile u (serializeItems items trailingNewline)).1 =
      groupBlocks ((linesRead (pushItems items) trailingNewline).map (flatItem u)) := by
  obtain ⟨lines, single, rfl⟩ := lined
  have lines_ : lines ≠ [] := by
    rintro rfl
    simp at some_
  rw [serializeItems, pushItems_groupBlocks, pushItems_flatItem]
  exact parseFile_written u trailingNewline lines_ single

end Sshelter.Config

namespace Sshelter.Sync.V2

open HostsFile Config

variable {u : Text.UnicodeTables}

/-! ## Blocks read back -/

@[simp] theorem blocksOf_append (items more : List Item) : blocksOf (items ++ more) = blocksOf items ++ blocksOf more :=
  List.filterMap_append

theorem blockOf_eq_none {item : Item} (plain : item.isBlock = false) : blockOf item = none := by
  cases item with
  | Host => cases plain
  | Match => cases plain
  | _ => rfl

theorem blocksOf_plain {items : List Item} (plain : ∀ item ∈ items, item.isBlock = false) : blocksOf items = [] :=
  List.filterMap_eq_nil_iff.mpr fun item member => blockOf_eq_none (plain item member)

/-- Written with a final newline, or with a last line that is not empty, every block is read back. -/
theorem blocksOf_read_back {items : List Item} (lined : Lined u items) {trailingNewline : Bool}
    (kept : trailingNewline = true ∨ ¬ EndsInEmptyLine items) :
    blocksOf (parseFile u (serializeItems items trailingNewline)).1 = blocksOf items := by
  by_cases none_ : items = []
  · subst none_
    cases trailingNewline with
    | false => rfl
    | true =>
      have blank : (parseFile u (serializeItems [] true)).1 = groupBlocks [.Blank []] := rfl
      rw [blank, groupBlocks_plain rfl, groupBlocks_nil]
      rfl
  · rw [lined.parse_serialize none_, linesRead]
    obtain ⟨lines, -, rfl⟩ := lined
    rw [pushItems_groupBlocks, pushItems_flatItem]
    split
    · rename_i lost
      obtain ⟨rfl, last⟩ := lost
      have notKept := kept.resolve_left Bool.false_ne_true
      obtain ⟨front, rfl⟩ : ∃ front, lines = front ++ [[]] := ⟨_, (List.dropLast_append_getLast? _ last).symm⟩
      rw [List.dropLast_concat, List.map_append, List.map_singleton, flatItem_nil]
      by_cases header : ∃ item ∈ front.map (flatItem u), headerKind item ≠ none
      · -- the empty line belongs to the last block, which has to be a Match block
        obtain ⟨before, kind, header, body, parts, hkind, plain⟩ := exists_last_header header
        have plain' : ∀ item ∈ body ++ [.Blank []], headerKind item = none := by
          intro item member
          obtain inBody | this := List.mem_append.mp member
          · exact plain item inBody
          · rw [List.mem_singleton.mp this]
            rfl
        rw [List.map_append, List.map_singleton, flatItem_nil, parts, List.append_assoc, List.cons_append,
          groupBlocks_last hkind plain'] at notKept
        rw [parts, groupBlocks_last hkind plain, List.append_assoc, List.cons_append,
          groupBlocks_last hkind plain', blocksOf_append, blocksOf_append]
        cases kind with
        | Host => exact absurd ⟨_, _, _, _, rfl⟩ notKept
        | Match => rfl
      · -- no block at all
        have plain : ∀ item ∈ front.map (flatItem u), headerKind item = none := by
          simpa using header
        have plain' : ∀ item ∈ front.map (flatItem u) ++ [.Blank []], headerKind item = none := by
          intro item member
          obtain above | this := List.mem_append.mp member
          · exact plain item above
          · rw [List.mem_singleton.mp this]
            rfl
        rw [groupBlocks_all_plain plain, groupBlocks_all_plain plain', blocksOf_append,
          blocksOf_plain flat_not_block]
        rfl
    · rfl

/-- Without a final newline, the empty last line of the last block is not read back. -/
theorem parseFile_lost_line {above body : List Item} {header : Directive} {patterns : List (List Char)}
    (lined : Lined u (above ++ [.Host header patterns (body ++ [.Blank []])])) :
    (parseFile u (serializeItems (above ++ [.Host header patterns (body ++ [.Blank []])]) false)).1 =
      above ++ [.Host header patterns body] := by
  rw [lined.parse_serialize (by simp)]
  obtain ⟨lines, -, grouped⟩ := lined
  obtain ⟨before, kind, header', body', after, parts, rfl, hkind, same, plain, -, below⟩ :=
    groupBlocks_eq_append flat_not_block rfl grouped.symm
  obtain rfl := groupBlocks_eq_nil.mp below
  cases kind with
  | Match => cases same
  | Host =>
    cases same
    rw [List.append_nil, ← List.cons_append, ← List.append_assoc] at parts
    obtain ⟨front, back, rfl, inFront, inBack⟩ := List.map_eq_append_iff.mp parts
    obtain ⟨line, rfl, blank⟩ : ∃ line, back = [line] ∧ flatItem u line = .Blank [] := by
      cases back with
      | nil => cases inBack
      | cons line rest =>
        obtain ⟨first, none_⟩ := List.cons.inj inBack
        exact ⟨line, by rw [List.map_eq_nil_iff.mp none_], first⟩
    obtain rfl := eq_nil_of_flatItem blank
    have plain' : ∀ item ∈ body, headerKind item = none := fun item member =>
      plain item (List.mem_append_left _ member)
    rw [grouped, pushItems_groupBlocks, pushItems_flatItem, linesRead, if_pos ⟨rfl, by simp⟩,
      List.dropLast_concat, inFront, groupBlocks_last hkind plain']
    rfl

/-! ## Blocks by alias -/

/-- What the check of a managed file says about its blocks. -/
structure NamedBlocks (items : List Item) : Prop where
  named : ∀ header patterns body, .Host header patterns body ∈ items → isSyncableBlock patterns = true
  distinct : (items.filterMap firstAlias).Nodup

theorem checkBlocks_ok {seen : List (List Char)} {items : List Item} (checked : checkBlocks seen items = .ok ()) :
    NamedBlocks items ∧ ∀ alias_ ∈ items.filterMap firstAlias, alias_ ∉ seen := by
  induction items generalizing seen with
  | nil => exact ⟨⟨by simp, by simp⟩, by simp⟩
  | cons item rest ih =>
    cases item with
    | Host header patterns body =>
      simp only [checkBlocks, Result.refuse_bind_eq_ok, Bool.not_eq_false'] at checked
      obtain ⟨named, checked⟩ := checked
      cases patterns with
      | nil => cases named
      | cons alias_ more =>
        simp only [List.head?_cons, Result.refuse_bind_eq_ok] at checked
        obtain ⟨fresh, checked⟩ := checked
        obtain ⟨later, apart⟩ := ih checked
        refine ⟨⟨?_, ?_⟩, ?_⟩
        · intro header' patterns' body' member
          obtain this | inRest := List.mem_cons.mp member
          · cases this
            exact named
          · exact later.named _ _ _ inRest
        · show (alias_ :: rest.filterMap firstAlias).Nodup
          rw [List.nodup_cons]
          exact ⟨fun again => apart alias_ again List.mem_cons_self, later.distinct⟩
        · intro other member
          have member' : other ∈ alias_ :: rest.filterMap firstAlias := member
          obtain rfl | inRest := List.mem_cons.mp member'
          · simpa using fresh
          · exact fun inSeen => apart other inRest (List.mem_cons_of_mem _ inSeen)
    | _ =>
      obtain ⟨later, apart⟩ := ih (by simpa [checkBlocks] using checked)
      refine ⟨⟨?_, later.distinct⟩, apart⟩
      intro header patterns body member
      obtain this | inRest := List.mem_cons.mp member
      · cases this
      · exact later.named _ _ _ inRest

theorem namedBlocks_of_managed {items : List Item} (managed : checkManagedItems u items = .ok ()) :
    NamedBlocks items := by
  unfold checkManagedItems at managed
  obtain ⟨_, checked, -⟩ := Result.bind_eq_ok.mp managed
  exact (checkBlocks_ok checked).1

/-- The text of the block of an alias. -/
def textAt (items : List Item) (alias_ : List Char) : Option (List Char) :=
  (items.find? fun item => firstAlias item = some alias_).map blockText

theorem isBlock_of_firstAlias {item : Item} {alias_ : List Char} (named : firstAlias item = some alias_) :
    item.isBlock = true := by
  cases item with
  | Host => rfl
  | _ => cases named

/-- All Host blocks being named, the synced blocks are the blocks with an alias. -/
theorem NamedBlocks.blockOf_eq {items : List Item} (named : NamedBlocks items) {item : Item} (member : item ∈ items) :
    blockOf item = (firstAlias item).map fun alias_ =>
      { aliasName := String.ofList alias_, text := String.ofList (blockText item) } := by
  cases item with
  | Host header patterns body => simp [blockOf, firstAlias, named.named _ _ _ member]
  | _ => rfl

theorem NamedBlocks.tail {item : Item} {items : List Item} (named : NamedBlocks (item :: items)) :
    NamedBlocks items := by
  refine ⟨fun _ _ _ member => named.named _ _ _ (List.mem_cons_of_mem _ member), ?_⟩
  exact named.distinct.sublist ((List.sublist_cons_self item items).filterMap firstAlias)

theorem appliedText_blocksOf {items : List Item} (named : NamedBlocks items) (alias_ : String) :
    appliedText (blocksOf items) alias_ = (textAt items alias_.toList).map String.ofList := by
  induction items with
  | nil => rfl
  | cons item rest ih =>
    have later := ih named.tail
    unfold appliedText blocksOf textAt at later ⊢
    rw [List.filterMap_cons, named.blockOf_eq List.mem_cons_self, List.find?_cons]
    cases first : firstAlias item with
    | none => simpa [first] using later
    | some other =>
      by_cases same : other = alias_.toList
      · simp [same, String.ofList_toList]
      · have apart : String.ofList other ≠ alias_ := fun equal => same (by rw [← equal, String.toList_ofList])
        simpa [same, apart] using later

/-! ## Effects -/

/-- The block of an alias stands in one place, or nowhere. -/
theorem position_cases {items : List Item} (named : NamedBlocks items) {alias_ : List Char}
    (syncable : isSyncableAlias alias_ = true) :
    (syncableHostPosition items alias_ = .ok none ∧ ∀ item ∈ items, firstAlias item ≠ some alias_) ∨
      ∃ above block below, items = above ++ block :: below ∧ firstAlias block = some alias_ ∧
        syncableHostPosition items alias_ = .ok (some above.length) ∧
        ∀ item ∈ above ++ below, firstAlias item ≠ some alias_ := by
  unfold syncableHostPosition
  rw [syncable]
  cases found : items.findIdx? fun item => decide (firstAlias item = some alias_) with
  | none =>
    refine .inl ⟨rfl, ?_⟩
    simpa using List.findIdx?_eq_none_iff.mp found
  | some p =>
    obtain ⟨inside, here, earlier⟩ := List.findIdx?_eq_some_iff_getElem.mp found
    simp only [decide_eq_true_eq] at here earlier
    have parts : items = items.take p ++ items[p] :: items.drop (p + 1) := by
      rw [List.getElem_cons_drop, List.take_append_drop]
    have length : (items.take p).length = p := List.length_take_of_le (Nat.le_of_lt inside)
    have above : ∀ item ∈ items.take p, firstAlias item ≠ some alias_ := by
      intro item member
      obtain ⟨i, bound, rfl⟩ := List.mem_iff_getElem.mp member
      rw [length] at bound
      rw [List.getElem_take]
      exact earlier i bound
    -- no alias stands twice, so no block below has it
    have distinct := named.distinct
    rw [parts, List.filterMap_append, List.filterMap_cons, here] at distinct
    have below : ∀ item ∈ items.drop (p + 1), firstAlias item ≠ some alias_ := by
      intro item member again
      have twice : alias_ ∈ (items.drop (p + 1)).filterMap firstAlias := List.mem_filterMap.mpr ⟨item, member, again⟩
      exact (List.nodup_cons.mp (List.nodup_append.mp distinct).2.1).1 twice
    refine .inr ⟨items.take p, items[p], items.drop (p + 1), parts, here, ?_, ?_⟩
    · have fetched : items[p]? = some items[p] := List.getElem?_eq_getElem inside
      rw [length]
      simp only [fetched]
      cases block : items[p] with
      | Host header patterns body =>
        have member : .Host header patterns body ∈ items := by
          rw [← block]
          exact List.getElem_mem inside
        simp [named.named _ _ _ member, refuse, pure, Except.pure, bind, Except.bind]
      | _ =>
        rw [block] at here
        cases here
    · intro item member
      exact (List.mem_append.mp member).elim (above item) (below item)

theorem find?_eq_none_of_apart {items : List Item} {alias_ : List Char}
    (apart : ∀ item ∈ items, firstAlias item ≠ some alias_) :
    (items.find? fun item => decide (firstAlias item = some alias_)) = none :=
  List.find?_eq_none.mpr fun item member => by simpa using apart item member

theorem textAt_of_apart {items : List Item} {alias_ : List Char}
    (apart : ∀ item ∈ items, firstAlias item ≠ some alias_) : textAt items alias_ = none := by
  rw [textAt, find?_eq_none_of_apart apart, Option.map_none]

theorem textAt_middle {above below : List Item} {block : Item} {alias_ : List Char}
    (apart : ∀ item ∈ above, firstAlias item ≠ some alias_) (here : firstAlias block = some alias_) :
    textAt (above ++ block :: below) alias_ = some (blockText block) := by
  rw [textAt, List.find?_append, find?_eq_none_of_apart apart, Option.none_or, List.find?_cons]
  simp [here]

theorem textAt_skip {above below : List Item} {block : Item} {alias_ : List Char}
    (other : firstAlias block ≠ some alias_) :
    textAt (above ++ block :: below) alias_ = textAt (above ++ below) alias_ := by
  simp [textAt, List.find?_append, other]

/-- The order of the aliases after one of them has got a text, or lost its block. -/
def reorder (order : List (Option (List Char))) (alias_ : List Char) (present : Bool) : List (Option (List Char)) :=
  if present then if some alias_ ∈ order then order else order ++ [some alias_]
  else order.filter (· ≠ some alias_)

theorem mem_aliases_iff {items : List Item} {alias_ : List Char} :
    some alias_ ∈ items.map firstAlias ↔ textAt items alias_ ≠ none := by
  simp [textAt]

theorem filter_aliases_of_apart {items : List Item} {alias_ : List Char}
    (apart : ∀ item ∈ items, firstAlias item ≠ some alias_) :
    (items.map firstAlias).filter (· ≠ some alias_) = items.map firstAlias := by
  refine List.filter_eq_self.mpr fun name member => ?_
  obtain ⟨item, inItems, rfl⟩ := List.mem_map.mp member
  simpa using apart item inItems

/-- The items with the text of one alias changed: what an effect leaves. -/
structure Places (u : Text.UnicodeTables) (items : List Item) (alias_ : List Char) (text : Option (List Char))
    (items' : List Item) : Prop where
  lined : Lined u items'
  named : NamedBlocks items'
  here : textAt items' alias_ = text
  elsewhere : ∀ other, other ≠ alias_ → textAt items' other = textAt items other
  order : items'.map firstAlias = reorder (items.map firstAlias) alias_ text.isSome

theorem removeHostBlock_places {items : List Item} (lined : Lined u items) (named : NamedBlocks items)
    {alias_ : List Char} (syncable : isSyncableAlias alias_ = true) :
    Places u items alias_ none (removeHostBlock items alias_).1 ∧
      ((removeHostBlock items alias_).2 = false → (removeHostBlock items alias_).1 = items) := by
  unfold removeHostBlock
  obtain ⟨position, apart⟩ | ⟨above, block, below, rfl, here, position, apart⟩ := position_cases named syncable
  · rw [position]
    exact ⟨⟨lined, named, textAt_of_apart apart, fun _ _ => rfl, (filter_aliases_of_apart apart).symm⟩, fun _ => rfl⟩
  · have erased : (above ++ block :: below).eraseIdx above.length = above ++ below := by
      rw [List.eraseIdx_append_of_length_le (Nat.le_refl _), Nat.sub_self, List.eraseIdx_cons_zero]
    rw [position]
    simp only [erased]
    refine ⟨⟨lined.remove (isBlock_of_firstAlias here), ⟨?_, ?_⟩, textAt_of_apart apart, ?_, ?_⟩, by simp⟩
    · intro header patterns body member
      apply named.named header patterns body
      rw [List.mem_append] at member
      rw [List.mem_append, List.mem_cons]
      exact member.imp_right .inr
    · exact named.distinct.sublist (((List.sublist_cons_self block below).append_left above).filterMap firstAlias)
    · intro other different
      rw [textAt_skip]
      rw [here]
      simpa using different.symm
    · have others := filter_aliases_of_apart apart
      rw [List.map_append, List.filter_append] at others
      rw [Option.isSome_none, reorder, if_neg Bool.false_ne_true, List.map_append, List.map_append, List.map_cons,
        List.filter_append, List.filter_cons_of_neg (by simp [here]), others]

/-- A text that was validated, as the item it is parsed to. -/
theorem parseSingleHost_ok {alias_ text : List Char} {incoming : Item}
    (parsed : parseSingleHost u alias_ text = .ok incoming) :
    (parseFile u text).1 = [incoming] ∧ firstAlias incoming = some alias_ ∧
      ∀ header patterns body, incoming = .Host header patterns body → isSyncableBlock patterns = true := by
  unfold parseSingleHost at parsed
  simp only [Result.refuse_bind_eq_ok] at parsed
  obtain ⟨-, parsed⟩ := parsed
  split at parsed
  · rename_i header patterns body read
    simp only [Result.refuse_bind_eq_ok] at parsed
    obtain ⟨first, syncable, parsed⟩ := parsed
    split at parsed
    · cases parsed
    · cases parsed
      refine ⟨read, by simpa [firstAlias] using first, ?_⟩
      rintro _ _ _ ⟨⟩
      simpa using syncable
  · cases parsed

/-- The text with its last line ended. -/
def closeLine (text : List Char) : List Char := if text.getLast? = some '\n' then text else text ++ ['\n']

theorem blockText_parsed {text : List Char} {item : Item} (parsed : (parseFile u text).1 = [item]) :
    blockText item = closeLine text := by
  have written := serializeItems_parseFile u text
  have ending : (parseFile u text).2 = decide (text.getLast? = some '\n') := by
    unfold parseFile
    simp only
    split <;> rfl
  rw [parsed, ending] at written
  unfold blockText closeLine
  split
  · rename_i ended
    simpa [ended] using written
  · rename_i open_
    rw [← written]
    simp [serializeItems, open_]

theorem applyHostText_places {items : List Item} (lined : Lined u items) (named : NamedBlocks items)
    {alias_ text : List Char} {incoming : Item} (syncable : isSyncableAlias alias_ = true)
    (parsed : parseSingleHost u alias_ text = .ok incoming) :
    ∃ items' changed, applyHostText u items alias_ text = .ok (items', changed) ∧
      Places u items alias_ (some (closeLine text)) items' ∧ (changed = false → items' = items) := by
  obtain ⟨read, first, whole⟩ := parseSingleHost_ok parsed
  have linedIncoming : Lined u [incoming] := by
    rw [← read]
    exact lined_parseFile u text
  have isBlock := isBlock_of_firstAlias first
  rw [← blockText_parsed read]
  unfold applyHostText
  rw [parsed]
  obtain ⟨position, apart⟩ | ⟨above, block, below, rfl, here, position, apart⟩ := position_cases named syncable
  · -- a new block at the end
    rw [position]
    refine ⟨items ++ [incoming], true, rfl, ⟨?_, ⟨?_, ?_⟩, ?_, ?_, ?_⟩, by simp⟩
    · exact lined.append linedIncoming (opens_block isBlock [])
    · intro header patterns body member
      obtain old | this := List.mem_append.mp member
      · exact named.named _ _ _ old
      · exact whole _ _ _ (List.mem_singleton.mp this).symm
    · rw [List.filterMap_append, List.filterMap_cons, first]
      refine List.nodup_append.mpr ⟨named.distinct, by simp, ?_⟩
      rintro other member _ new rfl
      obtain ⟨item, inItems, same⟩ := List.mem_filterMap.mp member
      obtain rfl : other = alias_ := by simpa using new
      exact apart item inItems same
    · exact textAt_middle apart first
    · intro other different
      rw [textAt_skip, List.append_nil]
      rw [first]
      simpa using different.symm
    · have absent : some alias_ ∉ items.map firstAlias := fun member => mem_aliases_iff.mp member (textAt_of_apart apart)
      rw [Option.isSome_some, reorder, if_pos rfl, if_neg absent, List.map_append, List.map_singleton, first]
  · -- the text takes the place of the alias's block
    rw [position]
    have fetched : (above ++ block :: below)[above.length]? = some block := by simp
    have replaced : (above ++ block :: below).set above.length incoming = above ++ incoming :: below := by simp
    have inAbove : ∀ item ∈ above, firstAlias item ≠ some alias_ := fun item member =>
      apart item (List.mem_append_left _ member)
    have present : reorder ((above ++ block :: below).map firstAlias) alias_ true =
        (above ++ block :: below).map firstAlias := by
      rw [reorder, if_pos rfl, if_pos]
      exact List.mem_map.mpr ⟨block, by simp, here⟩
    by_cases same : blockText block = blockText incoming
    · -- the file has this text already
      refine ⟨above ++ block :: below, false, ?_, ⟨lined, named, ?_, fun _ _ => rfl, present.symm⟩, fun _ => rfl⟩
      · simp [same, bind, Except.bind, pure, Except.pure]
      · rw [textAt_middle inAbove here, same]
    · refine ⟨above ++ incoming :: below, true, ?_, ⟨?_, ⟨?_, ?_⟩, ?_, ?_, ?_⟩, by simp⟩
      · simp [replaced, same, bind, Except.bind, pure, Except.pure]
      · exact lined.replace (isBlock_of_firstAlias here) linedIncoming isBlock
      · intro header patterns body member
        rw [List.mem_append, List.mem_cons] at member
        obtain old | this | old := member
        · exact named.named _ _ _ (List.mem_append_left _ old)
        · exact whole _ _ _ this.symm
        · exact named.named _ _ _ (List.mem_append_right _ (List.mem_cons_of_mem _ old))
      · have distinct := named.distinct
        rw [List.filterMap_append, List.filterMap_cons, here] at distinct
        rw [List.filterMap_append, List.filterMap_cons, first]
        exact distinct
      · exact textAt_middle inAbove first
      · intro other different
        rw [textAt_skip, textAt_skip]
        · rw [here]
          simpa using different.symm
        · rw [first]
          simpa using different.symm
      · rw [Option.isSome_some, present]
        simp [first, here]

/-! ## The last line of a file -/

/-- The text ends in an empty line. -/
def EndsBlank (text : List Char) : Prop := ['\n', '\n'] <:+ text

theorem getLast?_blockText (item : Item) : (blockText item).getLast? = some '\n' := by
  simp [blockText, serializeItems]

theorem closeLine_eq_self {text : List Char} : closeLine text = text ↔ text.getLast? = some '\n' := by
  unfold closeLine
  split
  · rename_i ended
    exact iff_of_true rfl ended
  · rename_i open_
    exact iff_of_false (by simp) open_

theorem EndsBlank.closed {text : List Char} (blank : EndsBlank text) : text.getLast? = some '\n' := by
  obtain ⟨front, rfl⟩ := blank
  simp

/-- Ending the last line makes no empty line. -/
theorem endsBlank_closeLine {text : List Char} : EndsBlank (closeLine text) ↔ EndsBlank text := by
  constructor
  · intro blank
    by_cases ended : text.getLast? = some '\n'
    · rwa [closeLine_eq_self.mpr ended] at blank
    · rw [closeLine, if_neg ended] at blank
      obtain ⟨front, same⟩ := blank
      have whole : front ++ ['\n'] = text := by
        rw [List.append_cons, List.append_left_inj] at same
        exact same
      exact absurd (by simp [← whole]) ended
  · intro blank
    rwa [closeLine_eq_self.mpr blank.closed]

/-- The block without its empty last line is shorter by one line end. -/
theorem blockText_concat_blank (header : Directive) (patterns : List (List Char)) (body : List Item) :
    blockText (.Host header patterns (body ++ [.Blank []])) =
      blockText (.Host header patterns body) ++ ['\n'] := by
  simp only [blockText, serializeItems, pushItems, itemLines, pushItems_append, List.append_nil, if_true]
  rw [← List.cons_append, intercalate_empty_last]

/-- A named block at the end of the file, with the lines it was read from. -/
theorem lines_of_last {above : List Item} {item : Item} (lined : Lined u (above ++ [item])) {alias_ : List Char}
    (here : firstAlias item = some alias_) : ∃ header patterns first rest,
      item = .Host header patterns (rest.map (flatItem u)) ∧ pushItems [item] = first :: rest ∧ first ≠ [] ∧
        ∀ line ∈ first :: rest, '\n' ∉ line := by
  obtain ⟨lines, single, grouped⟩ := lined
  obtain ⟨before, kind, header, body, after, parts, -, hkind, rfl, -, -, below⟩ :=
    groupBlocks_eq_append flat_not_block (isBlock_of_firstAlias here) grouped.symm
  obtain rfl := groupBlocks_eq_nil.mp below
  rw [List.append_nil] at parts
  obtain ⟨front, own, rfl, -, inBlock⟩ := List.map_eq_append_iff.mp parts
  obtain ⟨first, rest, rfl, isHeader, rfl⟩ := List.map_eq_cons_iff.mp inBlock
  cases kind with
  | Match => cases here
  | Host =>
    refine ⟨header, _, first, rest, rfl, ?_, ?_, fun line member => single line (List.mem_append_right _ member)⟩
    · calc pushItems [makeBlock .Host header (rest.map (flatItem u))]
          = pushItems (.Directive header :: rest.map (flatItem u)) := by simp [makeBlock, pushItems, itemLines]
        _ = pushItems ((first :: rest).map (flatItem u)) := by rw [List.map_cons, isHeader]
        _ = first :: rest := pushItems_flatItem u _
    · rintro rfl
      rw [flatItem_nil] at isHeader
      cases isHeader

/-- A named block at the end of the file ends in an empty line exactly when its text does. -/
theorem endsInEmptyLine_iff {above : List Item} {item : Item} (lined : Lined u (above ++ [item])) {alias_ : List Char}
    (here : firstAlias item = some alias_) : EndsInEmptyLine (above ++ [item]) ↔ EndsBlank (blockText item) := by
  obtain ⟨header, patterns, first, rest, rfl, lines, text, single⟩ := lines_of_last lined here
  have blank : EndsInEmptyLine (above ++ [.Host header patterns (rest.map (flatItem u))]) ↔ rest.getLast? = some [] := by
    constructor
    · rintro ⟨above', header', patterns', body, same⟩
      obtain ⟨-, block⟩ := List.append_inj' same rfl
      simp only [List.cons.injEq, Item.Host.injEq, and_true] at block
      obtain ⟨front, back, rfl, -, inBack⟩ := List.map_eq_append_iff.mp block.2.2
      obtain ⟨line, none_, rfl, isBlank, empty⟩ := List.map_eq_cons_iff.mp inBack
      obtain rfl := List.map_eq_nil_iff.mp empty
      rw [eq_nil_of_flatItem isBlank, List.getLast?_concat]
    · intro last
      obtain ⟨front, rfl⟩ : ∃ front, rest = front ++ [[]] := ⟨_, (List.dropLast_append_getLast? _ last).symm⟩
      exact ⟨above, header, patterns, front.map (flatItem u), by simp [flatItem_nil]⟩
  rw [blank, blockText, serializeItems, lines, if_pos rfl]
  constructor
  · intro last
    obtain ⟨front, rfl⟩ : ∃ front, rest = front ++ [[]] := ⟨_, (List.dropLast_append_getLast? _ last).symm⟩
    rw [← List.cons_append, intercalate_empty_last]
    exact ⟨['\n'].intercalate (first :: front), by simp⟩
  · rintro ⟨front, same⟩
    rw [List.append_cons, List.append_left_inj] at same
    have ending : (['\n'].intercalate (first :: rest)).getLast? = some '\n' := by rw [← same, List.getLast?_concat]
    -- a last line with text in it would end in a line end of its own
    have empty {line : List Char} (last : (first :: rest).getLast? = some line) : line = [] := by
      by_contra some_
      rw [getLast?_intercalate last some_] at ending
      exact single line (List.mem_of_getLast? last) (List.mem_of_getLast? ending)
    cases rest with
    | nil => exact absurd (empty rfl) text
    | cons second more =>
      rw [List.getLast?_cons_cons] at empty
      cases last : (second :: more).getLast? with
      | none => simp at last
      | some line => rw [empty last]

end Sshelter.Sync.V2
