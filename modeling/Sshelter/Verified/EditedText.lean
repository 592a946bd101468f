import Sshelter.Config.Document
import Sshelter.Verified.ConfigText
import Sshelter.Verified.HostText

/-! # What an edit does to the text of a file

The edits work on items; this module says what a reader of the written text sees.  A block
body whose lines are body lines (no newline, no block header among them) is read back as it
was written, and the blocks around it with it.  A line that is not one breaks out of the
block, so for each edit the lines it writes decide whether it stays in its block.
-/

namespace Sshelter.Config

open Text

variable {u : UnicodeTables} {text : List Char} {alias_ : List Char}

/-! ## Outlines -/

/-- The header line of a block and the lines of its body. -/
def Item.block? : Item → Option (List Char × List (List Char))
  | .Host header _ body => some (renderDirective header, pushItems body)
  | .Match header _ body => some (renderDirective header, pushItems body)
  | _ => none

/-- The blocks of a file. -/
def outline (items : List Item) : List (List Char × List (List Char)) := items.filterMap Item.block?

/-- The lines above the first block. -/
def preamble (items : List Item) : List (List Char) := pushItems (items.filter fun item => !item.isBlock)

@[simp] theorem outline_append (items more : List Item) : outline (items ++ more) = outline items ++ outline more :=
  List.filterMap_append

@[simp] theorem outline_makeBlock (kind : HeaderKind) (header : Directive) (body rest : List Item) :
    outline (makeBlock kind header body :: rest) = (renderDirective header, pushItems body) :: outline rest := by
  cases kind <;> rfl

@[simp] theorem preamble_append (items more : List Item) :
    preamble (items ++ more) = preamble items ++ preamble more := by
  rw [preamble, List.filter_append, pushItems_append]
  rfl

@[simp] theorem preamble_makeBlock (kind : HeaderKind) (header : Directive) (body rest : List Item) :
    preamble (makeBlock kind header body :: rest) = preamble rest := by
  cases kind <;> rfl

/-- A line that a reader takes for one line of a block body. -/
def IsBodyLine (u : UnicodeTables) (line : List Char) : Prop :=
  '\n' ∉ line ∧ headerKind (flatItem u line) = none

theorem isBodyLine_nil : IsBodyLine u [] := ⟨by simp, rfl⟩

/-- Every body line of a parsed file is one. -/
theorem isBodyLine_of_outline {header : List Char} {lines : List (List Char)}
    (member : (header, lines) ∈ outline (parseFile u text).1) : ∀ line ∈ lines, IsBodyLine u line := by
  obtain ⟨all, single, grouped, -⟩ := parseFile_lines_read u text
  obtain ⟨item, inFile, shown⟩ := List.mem_filterMap.mp member
  have isBlock : item.isBlock = true := by
    cases item <;> simp_all [Item.block?, Item.isBlock]
  obtain ⟨above, below, parts⟩ := List.append_of_mem inFile
  rw [grouped] at parts
  have flat : ∀ item ∈ all.map (flatItem u), item.isBlock = false := by
    intro item member
    obtain ⟨line, -, rfl⟩ := List.mem_map.mp member
    exact flatItem_not_block u line
  obtain ⟨before, kind, head, body, after, split, -, -, rfl, plain, -⟩ :=
    groupBlocks_eq_append flat isBlock parts
  obtain ⟨rfl, rfl⟩ : renderDirective head = header ∧ pushItems body = lines := by
    cases kind <;> simpa [makeBlock, Item.block?] using shown
  obtain ⟨front, back, rfl, frontMap, -⟩ := List.map_eq_append_iff.mp split
  obtain ⟨_, middle, rfl, -, middleMap⟩ := List.map_eq_append_iff.mp frontMap
  obtain ⟨_, rest, rfl, -, rfl⟩ := List.map_eq_cons_iff.mp middleMap
  intro line inBody
  rw [pushItems_flatItem] at inBody
  exact ⟨single line (by simp [inBody]), plain _ (List.mem_map_of_mem inBody)⟩

/-! ## The block of an alias -/

/-- The first block of the alias, and what replacing it does to the file. -/
theorem findHost_eq_some {items : List Item} {host : HostBlock} (found : findHost alias_ items = some host) :
    ∃ above below, items = above ++ host.toItem :: below ∧ (∀ item ∈ above, item.hasAlias alias_ = false) ∧
      host.toItem.hasAlias alias_ = true ∧
      ∀ edit, modifyHost edit alias_ items = above ++ (edit host).toItem :: below := by
  induction items with
  | nil => cases found
  | cons item rest ih =>
    have later (other : item.hasAlias alias_ = false) (found : findHost alias_ rest = some host)
        (step : ∀ edit, modifyHost edit alias_ (item :: rest) = item :: modifyHost edit alias_ rest) :
        ∃ above below, item :: rest = above ++ host.toItem :: below ∧
          (∀ item ∈ above, item.hasAlias alias_ = false) ∧ host.toItem.hasAlias alias_ = true ∧
          ∀ edit, modifyHost edit alias_ (item :: rest) = above ++ (edit host).toItem :: below := by
      obtain ⟨above, below, rfl, others, has, edited⟩ := ih found
      refine ⟨item :: above, below, rfl, ?_, has, ?_⟩
      · intro item' member
        rcases List.mem_cons.mp member with rfl | member
        · exact other
        · exact others item' member
      · intro edit
        rw [step, edited, List.cons_append]
    cases item with
    | Host header patterns body =>
      by_cases has : patterns.contains alias_ = true
      · rw [findHost, if_pos has] at found
        obtain rfl := Option.some.inj found
        refine ⟨[], rest, rfl, by simp, has, ?_⟩
        intro edit
        rw [modifyHost, if_pos has, List.nil_append]
      · rw [findHost, if_neg has] at found
        refine later (by simpa [Item.hasAlias] using has) found ?_
        intro edit
        rw [modifyHost, if_neg has]
    | Match _ _ _ => exact later rfl found fun edit => by rw [modifyHost]; exact nofun
    | Blank _ => exact later rfl found fun edit => by rw [modifyHost]; exact nofun
    | Comment _ => exact later rfl found fun edit => by rw [modifyHost]; exact nofun
    | Directive _ => exact later rfl found fun edit => by rw [modifyHost]; exact nofun

/-! ## Reading an edited block back -/

/-- The lines of a parsed file around one of its Host blocks. -/
theorem parsed_around {above below : List Item} {host : HostBlock}
    (parts : (parseFile u text).1 = above ++ host.toItem :: below) :
    ∃ front headLine back : _, (∀ line ∈ front ++ headLine :: back, '\n' ∉ line) ∧ headLine ≠ [] ∧
      pushItems above = front ∧ pushItems below = back ∧ flatItem u headLine = .Directive host.header ∧
      headerKind (.Directive host.header) = some (.Host, host.header) ∧
      groupBlocks (front.map (flatItem u)) = above ∧ groupBlocks (back.map (flatItem u)) = below ∧
      StartsBlock (back.map (flatItem u)) ∧
      ((parseFile u text).2 = false → back ≠ [] → back.getLast? ≠ some []) := by
  obtain ⟨all, single, grouped, closed⟩ := parseFile_lines_read u text
  rw [grouped] at parts
  have flat : ∀ item ∈ all.map (flatItem u), item.isBlock = false := by
    intro item member
    obtain ⟨line, -, rfl⟩ := List.mem_map.mp member
    exact flatItem_not_block u line
  obtain ⟨before, kind, header, body, after, split, groupedBefore, hkind, same, plain, starts, groupedAfter⟩ :=
    groupBlocks_eq_append flat rfl parts
  obtain ⟨rfl, rfl⟩ : kind = .Host ∧ header = host.header := by
    cases kind <;> simp_all [makeBlock, HostBlock.toItem]
  obtain ⟨upTo, back, rfl, frontMap, rfl⟩ := List.map_eq_append_iff.mp split
  obtain ⟨front, block, rfl, rfl, blockMap⟩ := List.map_eq_append_iff.mp frontMap
  obtain ⟨headLine, lines, rfl, headItem, rfl⟩ := List.map_eq_cons_iff.mp blockMap
  refine ⟨front, headLine, back, ?_, ?_, ?_, ?_, headItem, hkind, groupedBefore, groupedAfter, starts, ?_⟩
  · intro line member
    apply single line
    simp only [List.mem_append, List.mem_cons] at member ⊢
    tauto
  · rintro rfl
    cases headItem
  · rw [← groupedBefore, pushItems_groupBlocks, pushItems_flatItem]
  · rw [← groupedAfter, pushItems_groupBlocks, pushItems_flatItem]
  · intro open_ some_
    have last := closed open_
    rwa [List.getLast?_append_of_ne_nil _ some_] at last

theorem renderDirective_of_flatItem {line : List Char} {d : Directive} (h : flatItem u line = .Directive d) :
    renderDirective d = line := by
  have lines := itemLines_flatItem u line
  rw [h] at lines
  simpa [itemLines] using lines

/-- A Host block whose new body consists of body lines is read back with that body, an empty
last line of the file apart, and the rest of the file as before. -/
theorem parseFile_edited_block {above below body : List Item} {host : HostBlock}
    (parts : (parseFile u text).1 = above ++ host.toItem :: below)
    (fine : ∀ line ∈ pushItems body, IsBodyLine u line) :
    ∃ kept, (kept = pushItems body ∨ kept ++ [[]] = pushItems body) ∧
      (parseFile u (serializeItems (above ++ { host with body }.toItem :: below) (parseFile u text).2)).1 =
        above ++ makeBlock .Host host.header (kept.map (flatItem u)) :: below := by
  obtain ⟨front, headLine, back, single, nonempty, rfl, rfl, headItem, hkind, groupedFront, groupedBack,
    starts, closed⟩ := parsed_around parts
  have rendered := renderDirective_of_flatItem headItem
  have lines : pushItems (above ++ { host with body }.toItem :: below) =
      pushItems above ++ headLine :: pushItems body ++ pushItems below := by
    simp [pushItems, itemLines, HostBlock.toItem, rendered]
  have regroup (kept : List (List Char)) (plain : ∀ line ∈ kept, IsBodyLine u line) :
      groupBlocks ((pushItems above ++ headLine :: kept ++ pushItems below).map (flatItem u)) =
        above ++ makeBlock .Host host.header (kept.map (flatItem u)) :: below := by
    have startsHost : StartsBlock (.Directive host.header :: kept.map (flatItem u)) := by
      intro item first
      obtain rfl := Option.some.inj first
      rw [hkind]
      rfl
    have plainItems : ∀ item ∈ kept.map (flatItem u), headerKind item = none := by
      intro item member
      obtain ⟨line, inKept, rfl⟩ := List.mem_map.mp member
      exact (plain line inKept).2
    rw [List.map_append, groupBlocks_append starts, List.map_append, List.map_cons, headItem,
      groupBlocks_append startsHost, groupedFront, groupedBack, groupBlocks_block hkind plainItems]
    simp
  have allSingle : ∀ line ∈ pushItems above ++ headLine :: pushItems body ++ pushItems below, '\n' ∉ line := by
    intro line member
    rcases List.mem_append.mp member with member | member
    · rcases List.mem_append.mp member with member | member
      · exact single line (by simp [member])
      · rcases List.mem_cons.mp member with rfl | member
        · exact single _ (by simp)
        · exact (fine line member).1
    · exact single line (by simp [member])
  rw [serializeItems, lines, parseFile_written u _ (by simp) allSingle, linesRead]
  split
  · rename_i dropped
    -- the file has no final newline and now ends with an empty line of this block
    have last : pushItems below = [] := by
      by_contra some_
      apply closed dropped.1 some_
      rw [← dropped.2, List.getLast?_append_of_ne_nil _ some_]
    rw [last, List.append_nil] at dropped ⊢
    obtain ⟨kept, split⟩ : ∃ kept, pushItems body = kept ++ [[]] := by
      cases tail : pushItems body using List.reverseRecOn with
      | nil =>
        rw [tail] at dropped
        simp [nonempty] at dropped
      | append_singleton kept final =>
        rw [tail, ← List.cons_append, ← List.append_assoc, List.getLast?_concat] at dropped
        exact ⟨kept, by rw [Option.some.inj dropped.2]⟩
    refine ⟨kept, .inr split.symm, ?_⟩
    rw [split, ← List.cons_append, ← List.append_assoc, List.dropLast_concat]
    have regrouped := regroup kept fun line member => fine line (by simp [split, member])
    rwa [last, List.append_nil] at regrouped
  · exact ⟨pushItems body, .inl rfl, regroup (pushItems body) fine⟩

/-- A reader of the new text sees the old blocks with the old headers, and only the first
block of the alias with other lines: one for each item of its body in memory (an empty last
line of the file apart), and at most so many more than before. -/
def StaysInBlock (u : UnicodeTables) (text newText alias_ : List Char) (edit : HostBlock → HostBlock)
    (gain : Nat) : Prop :=
  ∃ above host below kept,
    findHost alias_ (parseFile u text).1 = some host ∧
    (parseFile u text).1 = above ++ host.toItem :: below ∧
    outline (parseFile u newText).1 =
      outline above ++ (renderDirective host.header, kept) :: outline below ∧
    preamble (parseFile u newText).1 = preamble (parseFile u text).1 ∧
    (kept = pushItems (edit host).body ∨ kept ++ [[]] = pushItems (edit host).body) ∧
    kept.length ≤ (pushItems host.body).length + gain

theorem staysInBlock_iff {host : HostBlock} (found : findHost alias_ (parseFile u text).1 = some host)
    {edit : HostBlock → HostBlock} {gain : Nat}
    (header : (edit host).header = host.header ∧ (edit host).patterns = host.patterns)
    (bounded : (pushItems (edit host).body).length ≤ (pushItems host.body).length + gain) :
    StaysInBlock u text
        (serializeItems (modifyHost edit alias_ (parseFile u text).1) (parseFile u text).2) alias_ edit gain ↔
      ∀ line ∈ pushItems (edit host).body, IsBodyLine u line := by
  constructor
  · rintro ⟨above, host', below, kept, found', -, shown, -, whole, -⟩ line member
    obtain rfl : host = host' := Option.some.inj (found.symm.trans found')
    have inKept : ∀ line ∈ kept, IsBodyLine u line :=
      isBodyLine_of_outline (by rw [shown]; exact List.mem_append_right _ List.mem_cons_self)
    rcases whole with rfl | whole
    · exact inKept line member
    · rw [← whole] at member
      rcases List.mem_append.mp member with member | member
      · exact inKept line member
      · rw [List.mem_singleton.mp member]
        exact isBodyLine_nil
  · intro fine
    obtain ⟨above, below, parts, -, -, edited⟩ := findHost_eq_some found
    obtain ⟨kept, whole, read⟩ := parseFile_edited_block parts fine
    have same : (edit host).toItem = { host with body := (edit host).body }.toItem := by
      rw [HostBlock.toItem, header.1, header.2]
      rfl
    refine ⟨above, host, below, kept, found, parts, ?_, ?_, whole, ?_⟩
    · rw [edited, same, read, outline_append, outline_makeBlock, pushItems_flatItem]
    · rw [edited, same, read, parts, preamble_append, preamble_append, preamble_makeBlock]
      rfl
    · rcases whole with rfl | whole
      · exact bounded
      · rw [← whole, List.length_append] at bounded
        omega

/-! ## Fields -/

theorem applyChange_header (host : HostBlock) (change : HostFieldChange) :
    (applyChange u host change).header = host.header ∧ (applyChange u host change).patterns = host.patterns := by
  unfold applyChange removeHostField setHostField insertDirective
  split
  · exact ⟨rfl, rfl⟩
  · simp only
    split <;> exact ⟨rfl, rfl⟩

theorem applyChanges_header (changes : List HostFieldChange) (host : HostBlock) :
    (changes.foldl (applyChange u) host).header = host.header ∧
      (changes.foldl (applyChange u) host).patterns = host.patterns := by
  induction changes generalizing host with
  | nil => exact ⟨rfl, rfl⟩
  | cons change rest ih =>
    obtain ⟨header, patterns⟩ := applyChange_header (u := u) host change
    rw [List.foldl_cons, (ih _).1, (ih _).2]
    exact ⟨header, patterns⟩

/-- The line a change writes. -/
def writtenLine (u : UnicodeTables) (body : List Item) (change : HostFieldChange) : Option (List Char) :=
  if change.remove then none
  else
    let value := sanitizeValue change.value
    match body.find? (Item.hasKey (lowercase u change.keyword)) with
    | some (.Directive d) =>
      if d.value = value then none else some (renderDirective { d with value, dirty := true })
    | _ => some (renderDirective (.new u change.keyword value (inferIndent body)))

/-- A line without the key is passed over. -/
theorem setFirst_cons_of_ne {key : List Char} (value : List Char) {item : Item} (other : item.hasKey key = false)
    (rest : List Item) :
    setFirst key value (item :: rest) = (setFirst key value rest).map (Prod.map (item :: ·) id) := by
  cases item with
  | Directive d =>
    have differs : d.key ≠ key := by simpa [Item.hasKey] using other
    simp only [setFirst, if_neg differs]
    rfl
  | _ => rfl

theorem setFirst_missing {key : List Char} (value : List Char) {body : List Item}
    (missing : body.find? (Item.hasKey key) = none) : setFirst key value body = none := by
  induction body with
  | nil => rfl
  | cons item rest ih =>
    rw [List.find?_cons] at missing
    split at missing
    · cases missing
    · rename_i other
      rw [setFirst_cons_of_ne value other, ih missing]
      rfl

theorem setFirst_found {key : List Char} (value : List Char) {body : List Item} {item : Item}
    (found : body.find? (Item.hasKey key) = some item) :
    ∃ d before after, item = .Directive d ∧ body = before ++ .Directive d :: after ∧
      setFirst key value body =
        if d.value = value then some (body, false)
        else some (before ++ .Directive { d with value, dirty := true } :: after, true) := by
  induction body with
  | nil => cases found
  | cons first rest ih =>
    rw [List.find?_cons] at found
    split at found
    · rename_i here
      obtain rfl := Option.some.inj found
      cases first with
      | Directive d =>
        have here : d.key = key := by simpa [Item.hasKey] using here
        refine ⟨d, [], rest, rfl, rfl, ?_⟩
        simp only [setFirst, if_pos here]
        split <;> rfl
      | _ => cases here
    · rename_i other
      obtain ⟨d, before, after, same, rfl, result⟩ := ih found
      refine ⟨d, first :: before, after, same, rfl, ?_⟩
      rw [setFirst_cons_of_ne value other, result]
      split <;> rfl

theorem pushItems_sublist {items more : List Item} (h : items.Sublist more) :
    (pushItems items).Sublist (pushItems more) := by
  induction h with
  | slnil => exact List.Sublist.slnil
  | cons item _ ih =>
    rw [pushItems]
    exact ih.trans (List.sublist_append_right _ _)
  | cons_cons item _ ih =>
    rw [pushItems, pushItems]
    exact ih.append_left _

/-- A change takes lines away or writes one line among the others. -/
theorem applyChange_lines (host : HostBlock) (change : HostFieldChange) :
    match writtenLine u host.body change with
    | none => (pushItems (applyChange u host change).body).Sublist (pushItems host.body)
    | some line => ∃ front back, pushItems (applyChange u host change).body = front ++ line :: back ∧
        (front ++ back).Sublist (pushItems host.body) := by
  unfold applyChange writtenLine
  cases remove : change.remove with
  | true => exact pushItems_sublist List.eraseP_sublist
  | false =>
    simp only [Bool.false_eq_true, if_false, setHostField]
    cases found : host.body.find? (Item.hasKey (lowercase u change.keyword)) with
    | none =>
      simp only [setFirst_missing _ found, insertDirective]
      split
      · refine ⟨pushItems host.body, [], ?_, by simp⟩
        simp [pushItems, itemLines]
      · refine ⟨pushItems (host.body.rdropWhile fun item => !item.isDirective),
          pushItems (host.body.rtakeWhile fun item => !item.isDirective), ?_, ?_⟩
        · rw [pushItems_append, pushItems, itemLines, List.singleton_append]
        · rw [← pushItems_append, List.rdropWhile_append_rtakeWhile]
    | some item =>
      obtain ⟨d, before, after, rfl, parts, result⟩ := setFirst_found (sanitizeValue change.value) found
      simp only [result]
      by_cases same : d.value = sanitizeValue change.value
      · simp [same]
      · simp only [if_neg same, pushItems_append, pushItems, itemLines]
        refine ⟨pushItems before, pushItems after, rfl, ?_⟩
        rw [parts, pushItems_append, pushItems]
        exact (List.sublist_append_right _ _).append_left _

theorem applyChange_length (host : HostBlock) (change : HostFieldChange) :
    (pushItems (applyChange u host change).body).length ≤ (pushItems host.body).length + 1 := by
  have lines := applyChange_lines (u := u) host change
  split at lines
  · exact lines.length_le.trans (Nat.le_succ _)
  · obtain ⟨front, back, parts, kept⟩ := lines
    have := kept.length_le
    rw [parts]
    simp only [List.length_append, List.length_cons] at this ⊢
    omega

theorem applyChanges_length (changes : List HostFieldChange) (host : HostBlock) :
    (pushItems (changes.foldl (applyChange u) host).body).length ≤
      (pushItems host.body).length + changes.length := by
  induction changes generalizing host with
  | nil => simp
  | cons change rest ih =>
    have first := applyChange_length (u := u) host change
    have others := ih (applyChange u host change)
    rw [List.foldl_cons, List.length_cons]
    omega

/-- One line among lines that have a property. -/
theorem forall_mem_insert_iff {good : List Char → Prop} {front back all : List (List Char)} {new : List Char}
    (kept : (front ++ back).Sublist all) (fine : ∀ line ∈ all, good line) :
    (∀ line ∈ front ++ new :: back, good line) ↔ good new := by
  constructor
  · intro every
    exact every new (by simp)
  · intro single line member
    rcases List.mem_append.mp member with member | member
    · exact fine line (kept.subset (List.mem_append_left _ member))
    · rcases List.mem_cons.mp member with rfl | member
      · exact single
      · exact fine line (kept.subset (List.mem_append_right _ member))

/-- The body has one reading: its lines are body lines. -/
def HasBodyLines (u : UnicodeTables) (host : HostBlock) : Prop :=
  ∀ line ∈ pushItems host.body, IsBodyLine u line

theorem applyChange_hasBodyLines {host : HostBlock} (fine : HasBodyLines u host) (change : HostFieldChange) :
    HasBodyLines u (applyChange u host change) ↔
      ∀ line, writtenLine u host.body change = some line → IsBodyLine u line := by
  have lines := applyChange_lines (u := u) host change
  cases written : writtenLine u host.body change with
  | none =>
    rw [written] at lines
    simp only [reduceCtorEq, false_imp_iff, implies_true, iff_true]
    exact fun line member => fine line (lines.subset member)
  | some new =>
    rw [written] at lines
    obtain ⟨front, back, parts, kept⟩ := lines
    simp only [HasBodyLines, parts, Option.some.injEq, forall_eq']
    exact forall_mem_insert_iff kept fine

/-- The condition on a batch of changes: every line a change writes, where it is made, is a
body line. -/
def WritesBodyLines (u : UnicodeTables) : HostBlock → List HostFieldChange → Prop
  | _, [] => True
  | host, change :: rest =>
    (∀ line, writtenLine u host.body change = some line → IsBodyLine u line) ∧
      WritesBodyLines u (applyChange u host change) rest

theorem writesBodyLines_iff {host : HostBlock} (fine : HasBodyLines u host) (changes : List HostFieldChange) :
    WritesBodyLines u host changes ↔ ∀ n, HasBodyLines u ((changes.take n).foldl (applyChange u) host) := by
  induction changes generalizing host with
  | nil => simpa [WritesBodyLines] using fine
  | cons change rest ih =>
    have first := applyChange_hasBodyLines fine change
    rw [WritesBodyLines, ← first]
    constructor
    · rintro ⟨after, others⟩ n
      cases n with
      | zero => exact fine
      | succ n => exact (ih after).mp others n
    · intro all
      have after : HasBodyLines u (applyChange u host change) := all 1
      exact ⟨after, (ih after).mpr fun n => all (n + 1)⟩

/-! ## Tags -/

/-- The comment line of the tags. -/
def tagsLine (tags : List (List Char)) : List Char := tagsPrefix ++ [','].intercalate tags

theorem setTags_header (host : HostBlock) (tags : List (List Char)) :
    (setTags host tags).header = host.header ∧ (setTags host tags).patterns = host.patterns := by
  unfold setTags
  split
  · exact ⟨rfl, rfl⟩
  · simp only
    split <;> exact ⟨rfl, rfl⟩

theorem setTags_nil_lines (host : HostBlock) :
    (pushItems (setTags host []).body).Sublist (pushItems host.body) :=
  pushItems_sublist List.eraseP_sublist

theorem setTags_lines (host : HostBlock) {tags : List (List Char)} (some_ : tags ≠ []) :
    ∃ front back, pushItems (setTags host tags).body = front ++ tagsLine tags :: back ∧
      (front ++ back).Sublist (pushItems host.body) := by
  unfold setTags
  rw [if_neg (by simpa using some_)]
  simp only
  split
  · rename_i position found
    have inside := (List.findIdx?_eq_some_iff_getElem.mp found).1
    refine ⟨pushItems (host.body.take position), pushItems (host.body.drop (position + 1)), ?_, ?_⟩
    · rw [List.set_eq_take_append_cons_drop, if_pos inside, pushItems_append, pushItems, itemLines]
      rfl
    · rw [← pushItems_append]
      apply pushItems_sublist
      calc (host.body.take position ++ host.body.drop (position + 1)).Sublist
            (host.body.take position ++ host.body.drop position) :=
            (List.drop_sublist_drop_left host.body (Nat.le_succ position)).append_left _
        _ = host.body := List.take_append_drop position host.body
  · exact ⟨[], pushItems host.body, rfl, List.Sublist.refl _⟩

theorem setTags_length (host : HostBlock) (tags : List (List Char)) :
    (pushItems (setTags host tags).body).length ≤ (pushItems host.body).length + 1 := by
  by_cases none_ : tags = []
  · subst none_
    exact (setTags_nil_lines host).length_le.trans (Nat.le_succ _)
  · obtain ⟨front, back, parts, kept⟩ := setTags_lines host none_
    have := kept.length_le
    rw [parts]
    simp only [List.length_append, List.length_cons] at this ⊢
    omega

theorem mem_intercalate {c d : Char} (other : c ≠ d) (parts : List (List Char)) :
    c ∈ [d].intercalate parts ↔ ∃ part ∈ parts, c ∈ part := by
  induction parts with
  | nil => simp
  | cons first rest ih =>
    cases rest with
    | nil => simp
    | cons second more =>
      rw [List.intercalate_cons_cons, List.mem_append, List.mem_append, ih]
      simp [other]

/-- Tags stay on their comment line unless one of them has a line end. -/
theorem isBodyLine_tagsLine (tags : List (List Char)) :
    IsBodyLine u (tagsLine tags) ↔ ∀ tag ∈ tags, '\n' ∉ tag := by
  have comment : headerKind (flatItem u (tagsLine tags)) = none := rfl
  have plain : '\n' ∉ tagsPrefix := by decide
  rw [IsBodyLine, and_iff_left comment, tagsLine, List.mem_append, mem_intercalate (by decide)]
  simp [plain]

theorem setTags_hasBodyLines {host : HostBlock} (fine : HasBodyLines u host) (tags : List (List Char)) :
    HasBodyLines u (setTags host tags) ↔ ∀ tag ∈ tags, '\n' ∉ tag := by
  by_cases none_ : tags = []
  · subst none_
    simp only [List.not_mem_nil, false_imp_iff, implies_true, iff_true]
    exact fun line member => fine line ((setTags_nil_lines host).subset member)
  · obtain ⟨front, back, parts, kept⟩ := setTags_lines host none_
    rw [← isBodyLine_tagsLine (u := u)]
    simp only [HasBodyLines, parts]
    exact forall_mem_insert_iff kept fine

/-! ## New hosts -/

/-- The blocks with one more line at the end of the last one. -/
def addLine (line : List Char) : List (List Char × List (List Char)) → List (List Char × List (List Char))
  | [] => []
  | [(header, lines)] => [(header, lines ++ [line])]
  | block :: rest => block :: addLine line rest

theorem addLine_cons {block : List Char × List (List Char)} {rest : List (List Char × List (List Char))}
    (line : List Char) (some_ : rest ≠ []) : addLine line (block :: rest) = block :: addLine line rest := by
  cases rest with
  | nil => exact absurd rfl some_
  | cons next more => rw [addLine]; simp

theorem outline_ne_nil_of_starts {flat : List Item} (starts : StartsBlock flat) (some_ : flat ≠ []) :
    outline (groupBlocks flat) ≠ [] := by
  cases flat with
  | nil => exact absurd rfl some_
  | cons first rest =>
    obtain ⟨⟨kind, header⟩, h⟩ := Option.isSome_iff_exists.mp (starts first rfl)
    rw [groupBlocks, h]
    simp

/-- A line at the end of a file goes to the last block, or to the lines above all blocks. -/
theorem groupBlocks_concat (u : UnicodeTables) {flat : List Item} {line : List Char}
    (flat_ : ∀ item ∈ flat, item.isBlock = false) (plain : headerKind (flatItem u line) = none) :
    outline (groupBlocks (flat ++ [flatItem u line])) = addLine line (outline (groupBlocks flat)) ∧
    preamble (groupBlocks (flat ++ [flatItem u line])) =
      preamble (groupBlocks flat) ++ if outline (groupBlocks flat) = [] then [line] else [] := by
  have noBlock := flatItem_not_block u line
  have noBlock? : (flatItem u line).block? = none := by
    unfold flatItem
    cases classifyLine u line <;> rfl
  -- the induction follows the cut into blocks: a header takes the plain lines below it
  induction flat using groupBlocks.induct with
  | case1 =>
    rw [List.nil_append, groupBlocks_plain plain]
    simp [outline, preamble, noBlock, noBlock?, addLine, pushItems, itemLines_flatItem]
  | case2 item others kind header h inBody =>
    rename_i ih
    have inBodyLine : inBody (flatItem u line) = true := by
      show (headerKind (flatItem u line)).isNone = true
      rw [plain]
      rfl
    rw [List.cons_append, groupBlocks_header h, groupBlocks_header h]
    by_cases all : ∀ next ∈ others, inBody next = true
    · -- the header's block is the last one
      have taken : (others ++ [flatItem u line]).takeWhile inBody = others ++ [flatItem u line] := by
        rw [List.takeWhile_append_of_pos all]
        simp [inBodyLine]
      have dropped : (others ++ [flatItem u line]).dropWhile inBody = [] := by
        rw [List.dropWhile_append_of_pos all]
        simp [inBodyLine]
      rw [taken, dropped, List.takeWhile_eq_self_iff.mpr all, List.dropWhile_eq_nil_iff.mpr all,
        groupBlocks_nil, outline_makeBlock, outline_makeBlock, preamble_makeBlock, preamble_makeBlock,
        pushItems_append]
      simp [outline, addLine, pushItems, itemLines_flatItem]
    · -- a later block is the last one
      have taken : (others ++ [flatItem u line]).takeWhile inBody = others.takeWhile inBody := by
        rw [List.takeWhile_append, if_neg]
        intro full
        exact all (List.takeWhile_eq_self_iff.mp (List.IsPrefix.eq_of_length (List.takeWhile_prefix _) full))
      have dropped : (others ++ [flatItem u line]).dropWhile inBody =
          others.dropWhile inBody ++ [flatItem u line] := by
        rw [List.dropWhile_append, if_neg]
        simpa using all
      have starts : StartsBlock (others.dropWhile inBody) := by
        intro item first
        have := List.head?_dropWhile_not inBody others
        rw [first] at this
        simpa [inBody, Option.isSome_iff_ne_none] using this
      have some_ : outline (groupBlocks (others.dropWhile inBody)) ≠ [] := by
        apply outline_ne_nil_of_starts starts
        simpa using all
      obtain ⟨blocks, top⟩ := ih fun item member =>
        flat_ item (List.mem_cons_of_mem _ ((List.dropWhile_sublist _).subset member))
      rw [taken, dropped, outline_makeBlock, outline_makeBlock, preamble_makeBlock, preamble_makeBlock,
        blocks, top, addLine_cons line some_, if_neg some_, if_neg (by simp)]
      exact ⟨rfl, rfl⟩
  | case3 item others h ih =>
    obtain ⟨blocks, top⟩ := ih fun item member => flat_ item (List.mem_cons_of_mem _ member)
    have notBlock := flat_ item List.mem_cons_self
    have notBlock? : item.block? = none := by
      cases item <;> simp_all [Item.isBlock, Item.block?]
    -- an item above all blocks is in no block
    have outlined (rest : List Item) : outline (item :: rest) = outline rest := by
      simp [outline, notBlock?]
    have above (rest : List Item) : preamble (item :: rest) = itemLines item ++ preamble rest := by
      simp [preamble, notBlock, pushItems]
    rw [List.cons_append, groupBlocks_plain h, groupBlocks_plain h, outlined, outlined, above, above,
      blocks, top, List.append_assoc]
    exact ⟨rfl, rfl⟩

/-- The line of a field of a new host. -/
def fieldLine (field : HostFieldChange) : List Char :=
  [' ', ' ', ' ', ' '] ++ field.keyword ++ [' '] ++ sanitizeValue field.value

/-- The header line of a new host. -/
def hostLine (alias_ : List Char) : List Char := ['H', 'o', 's', 't', ' '] ++ sanitizeValue alias_

theorem pushItems_fields (fields : List HostFieldChange) :
    pushItems ((fields.map fun c => (c.keyword, c.value)).map fun (keyword, value) =>
      .Directive (.new u keyword value [' ', ' ', ' ', ' '])) = fields.map fieldLine := by
  induction fields with
  | nil => rfl
  | cons field rest ih =>
    rw [List.map_cons, List.map_cons, pushItems, ih, List.map_cons]
    simp [itemLines, renderDirective, Directive.new, Directive.serializesAsComment, Directive.rest,
      Separator.text, fieldLine]

/-- Any alias gives one header line of a Host block. -/
theorem hostLine_header (alias_ : List Char) :
    ∃ d, flatItem u (hostLine alias_) = .Directive d ∧ headerKind (.Directive d) = some (.Host, d) := by
  have classified : ∃ d, classifyLine u (hostLine alias_) = .Directive d ∧
      d.key = lowercase u ['H', 'o', 's', 't'] := ⟨_, rfl, rfl⟩
  have lower : lowercase u ['H', 'o', 's', 't'] = "host".toList := by
    rw [lowercase, lowercaseFrom_ascii u [] (by simp [isAscii])]
    rfl
  obtain ⟨d, line, key⟩ := classified
  refine ⟨d, ?_, ?_⟩
  · rw [flatItem, line]
  · rw [headerKind, if_pos (key.trans lower)]

theorem newline_not_mem_sanitizeValue (value : List Char) : '\n' ∉ sanitizeValue value := by
  simp [sanitizeValue]

/-- A reader of the new text sees the old blocks and lines, the separating empty line, and one
new block with a line for each field. -/
def AddsBlock (u : UnicodeTables) (text newText alias_ : List Char) (fields : List HostFieldChange) : Prop :=
  outline (parseFile u newText).1 =
    addLine [] (outline (parseFile u text).1) ++ [(hostLine alias_, fields.map fieldLine)] ∧
  preamble (parseFile u newText).1 =
    preamble (parseFile u text).1 ++ if outline (parseFile u text).1 = [] then [[]] else []

theorem addsBlock_iff (alias_ : List Char) (fields : List HostFieldChange) :
    AddsBlock u text
        (serializeItems (addHost u (parseFile u text).1 alias_ (fields.map fun c => (c.keyword, c.value)))
          (parseFile u text).2) alias_ fields ↔
      ∀ field ∈ fields, IsBodyLine u (fieldLine field) := by
  constructor
  · rintro ⟨shown, -⟩ field member
    have block := List.mem_append_right (addLine [] (outline (parseFile u text).1))
      (List.mem_singleton_self (hostLine alias_, fields.map fieldLine))
    rw [← shown] at block
    exact isBodyLine_of_outline block _ (List.mem_map_of_mem member)
  · intro fine
    obtain ⟨all, single, grouped, -⟩ := parseFile_lines_read u text
    obtain ⟨header, headItem, hkind⟩ := hostLine_header (u := u) alias_
    have fineLines : ∀ line ∈ fields.map fieldLine, IsBodyLine u line := by
      intro line member
      obtain ⟨field, inFields, rfl⟩ := List.mem_map.mp member
      exact fine field inFields
    have lines : pushItems (addHost u (parseFile u text).1 alias_ (fields.map fun c => (c.keyword, c.value))) =
        all ++ [[]] ++ hostLine alias_ :: fields.map fieldLine := by
      rw [addHost, pushItems_append, grouped, pushItems_groupBlocks, pushItems_flatItem]
      simp only [pushItems, itemLines, pushItems_fields]
      simp [renderDirective, Directive.new, Directive.serializesAsComment, Directive.rest, Separator.text,
        hostLine]
    have allSingle : ∀ line ∈ all ++ [[]] ++ hostLine alias_ :: fields.map fieldLine, '\n' ∉ line := by
      intro line member
      rcases List.mem_append.mp member with member | member
      · rcases List.mem_append.mp member with member | member
        · exact single line member
        · rw [List.mem_singleton.mp member]
          simp
      · rcases List.mem_cons.mp member with rfl | member
        · have := newline_not_mem_sanitizeValue alias_
          simp [hostLine, this]
        · exact (fineLines line member).1
    -- the last line is never empty, so the reader sees every line
    have read : linesRead (all ++ [[]] ++ hostLine alias_ :: fields.map fieldLine) (parseFile u text).2 =
        all ++ [[]] ++ hostLine alias_ :: fields.map fieldLine := by
      rw [linesRead, if_neg]
      rintro ⟨-, last⟩
      rw [List.getLast?_append_of_ne_nil _ (by simp)] at last
      have member := List.mem_of_getLast? last
      rcases List.mem_cons.mp member with empty | member
      · simp [hostLine] at empty
      · obtain ⟨field, -, empty⟩ := List.mem_map.mp member
        simp [fieldLine] at empty
    have starts : StartsBlock (.Directive header :: (fields.map fieldLine).map (flatItem u)) := by
      intro item first
      obtain rfl := Option.some.inj first
      rw [hkind]
      rfl
    have plainItems : ∀ item ∈ (fields.map fieldLine).map (flatItem u), headerKind item = none := by
      intro item member
      obtain ⟨line, inLines, rfl⟩ := List.mem_map.mp member
      exact (fineLines line inLines).2
    have flat : ∀ item ∈ all.map (flatItem u), item.isBlock = false := by
      intro item member
      obtain ⟨line, -, rfl⟩ := List.mem_map.mp member
      exact flatItem_not_block u line
    obtain ⟨blocks, top⟩ := @groupBlocks_concat u _ [] flat rfl
    have mapped : (all ++ [[]] ++ hostLine alias_ :: fields.map fieldLine).map (flatItem u) =
        all.map (flatItem u) ++ [flatItem u []] ++
          .Directive header :: (fields.map fieldLine).map (flatItem u) := by
      rw [List.map_append, List.map_append, List.map_singleton, List.map_cons, headItem]
    unfold AddsBlock
    rw [serializeItems, lines, parseFile_written u _ (by simp) allSingle, read, mapped,
      groupBlocks_append starts, groupBlocks_block hkind plainItems, outline_append, preamble_append,
      outline_makeBlock, preamble_makeBlock, pushItems_flatItem, renderDirective_of_flatItem headItem,
      blocks, top, grouped]
    exact ⟨rfl, List.append_nil _⟩

/-! ## Commands on one file -/

/-- The text of a file after an edit of it. -/
def savedText (u : UnicodeTables) (text : List Char) (edit : Edit) : Option (List Char) :=
  let file : ConfigFile :=
    { path := "config", items := (parseFile u text).1, trailingNewline := (parseFile u text).2
      fingerprint := "" }
  match edit.apply u { files := [file] } with
  | .ok (edited, idx) => edited.textAt idx
  | .error _ => none

theorem findHost_isSome (alias_ : List Char) (items : List Item) :
    (findHost alias_ items).isSome = items.any (Item.hasAlias alias_) := by
  induction items with
  | nil => rfl
  | cons item rest ih =>
    cases item with
    | Host header patterns body =>
      rw [findHost, List.any_cons, ← ih]
      split <;> simp_all [Item.hasAlias]
    | Match _ _ _ => simpa [findHost, Item.hasAlias] using ih
    | Blank _ => simpa [findHost, Item.hasAlias] using ih
    | Comment _ => simpa [findHost, Item.hasAlias] using ih
    | Directive _ => simpa [findHost, Item.hasAlias] using ih

theorem hostFile_single (file : ConfigFile) (alias_ : List Char) :
    hostFile { files := [file] } alias_ =
      if (findHost alias_ file.items).isSome then .ok 0
      else .error (.NotFound (quoted "host" alias_ " not found")) := by
  rw [findHost_isSome, hostFile, findHostFileIndex, List.findIdx?_singleton]
  split <;> simp_all

/-- A command that edits the first block of an alias. -/
theorem savedText_eq_some_iff {edit : Edit} {onHost : HostBlock → HostBlock} {newText : List Char}
    (apply_ : ∀ doc, edit.apply u doc = (hostFile doc alias_ >>= fun idx =>
      pure (doc.modifyItems idx (modifyHost onHost alias_), idx))) :
    savedText u text edit = some newText ↔
      ∃ host, findHost alias_ (parseFile u text).1 = some host ∧
        newText = serializeItems (modifyHost onHost alias_ (parseFile u text).1) (parseFile u text).2 := by
  unfold savedText
  simp only [apply_, hostFile_single]
  cases findHost alias_ (parseFile u text).1 with
  | none => simp
  | some host => simp [SshConfigDoc.textAt, SshConfigDoc.modifyItems, ConfigFile.text, pure, Except.pure, eq_comm]

theorem hasBodyLines_parsed {host : HostBlock} (found : findHost alias_ (parseFile u text).1 = some host) :
    HasBodyLines u host := by
  obtain ⟨above, below, parts, -⟩ := findHost_eq_some found
  have block : (renderDirective host.header, pushItems host.body) ∈ outline (parseFile u text).1 := by
    rw [parts, outline_append]
    exact List.mem_append_right _ List.mem_cons_self
  exact isBodyLine_of_outline block

/-- When an edit stays in its block.  A batch of field changes, with every initial part of it,
does exactly when each change writes a body line; tags do exactly when none has a line end; a
new host is one block exactly when the lines of its fields are body lines. -/
theorem edits_stay_in_block (u : UnicodeTables) (text alias_ : List Char) :
    (∀ changes : List HostFieldChange,
      (∀ n newText, savedText u text (.SaveHost alias_ (changes.take n)) = some newText →
        StaysInBlock u text newText alias_ ((changes.take n).foldl (applyChange u)) (changes.take n).length) ↔
      ∀ host, findHost alias_ (parseFile u text).1 = some host → WritesBodyLines u host changes) ∧
    (∀ tags : List (List Char),
      (∀ newText, savedText u text (.SetTags alias_ tags) = some newText →
        StaysInBlock u text newText alias_ (setTags · tags) 1) ↔
      ((findHost alias_ (parseFile u text).1).isSome = true → ∀ tag ∈ tags, '\n' ∉ tag)) ∧
    ∀ fields : List HostFieldChange,
      (∀ newText, savedText u text (.AddHost "config" alias_ fields) = some newText →
        AddsBlock u text newText alias_ fields) ↔
      ∀ field ∈ fields, IsBodyLine u (fieldLine field) := by
  refine ⟨fun changes => ?_, fun tags => ?_, fun fields => ?_⟩
  · -- a batch: what every initial part of it does, by the number of changes applied
    have saved (n : Nat) (newText : List Char) := @savedText_eq_some_iff u text alias_
      (.SaveHost alias_ (changes.take n)) ((changes.take n).foldl (applyChange u)) newText fun _ => rfl
    simp only [saved]
    constructor
    · intro stays host found
      rw [writesBodyLines_iff (hasBodyLines_parsed found)]
      intro n
      exact (staysInBlock_iff found (applyChanges_header _ host) (applyChanges_length _ host)).mp
        (stays n _ ⟨host, found, rfl⟩)
    · rintro writes n newText ⟨host, found, rfl⟩
      apply (staysInBlock_iff found (applyChanges_header _ host) (applyChanges_length _ host)).mpr
      exact (writesBodyLines_iff (hasBodyLines_parsed found) changes).mp (writes host found) n
  · have saved (newText : List Char) := @savedText_eq_some_iff u text alias_
      (.SetTags alias_ tags) (setTags · tags) newText fun _ => rfl
    simp only [saved]
    constructor
    · intro stays some_
      obtain ⟨host, found⟩ := Option.isSome_iff_exists.mp some_
      apply (setTags_hasBodyLines (hasBodyLines_parsed found) tags).mp
      exact (staysInBlock_iff found (setTags_header host tags) (setTags_length host tags)).mp
        (stays _ ⟨host, found, rfl⟩)
    · rintro plain newText ⟨host, found, rfl⟩
      apply (staysInBlock_iff found (setTags_header host tags) (setTags_length host tags)).mpr
      exact (setTags_hasBodyLines (hasBodyLines_parsed found) tags).mpr (plain (by rw [found]; rfl))
  · -- a new host does not read the block of any other
    rw [← @addsBlock_iff u text alias_ fields]
    have saved : savedText u text (.AddHost "config" alias_ fields) = some (serializeItems
        (addHost u (parseFile u text).1 alias_ (fields.map fun c => (c.keyword, c.value)))
        (parseFile u text).2) := rfl
    rw [saved]
    simp

/-- An edit that stays in its block leaves as many blocks. -/
theorem StaysInBlock.length_outline {newText : List Char} {edit : HostBlock → HostBlock} {gain : Nat}
    (stays : StaysInBlock u text newText alias_ edit gain) :
    (outline (parseFile u newText).1).length = (outline (parseFile u text).1).length := by
  obtain ⟨above, host, below, kept, -, parts, shown, -⟩ := stays
  rw [shown, parts, outline_append, List.length_append, List.length_append]
  rfl

namespace Sample

/-- A keyword that ends its line and opens a block. -/
def openingKeyword : HostFieldChange where
  keyword := "Compression yes\nHost *\n  ProxyCommand".toList
  value := "evil %h".toList
  remove := false

end Sample

open Sample Sync.HostsFile.Sample in
/-- A keyword with line ends adds a block of its own to the file. -/
theorem keyword_opens_block :
    savedText asciiTables "Host web\n  User deploy\n".toList (.SaveHost "web".toList [openingKeyword]) =
      some "Host web\n  User deploy\n  Compression yes\nHost *\n  ProxyCommand evil %h\n".toList ∧
    ¬ StaysInBlock asciiTables "Host web\n  User deploy\n".toList
      "Host web\n  User deploy\n  Compression yes\nHost *\n  ProxyCommand evil %h\n".toList "web".toList
      ([openingKeyword].foldl (applyChange asciiTables)) 1 := by
  refine ⟨by decide +kernel, ?_⟩
  intro stays
  have same := stays.length_outline
  revert same
  decide +kernel

end Sshelter.Config
