import Sshelter.Config.Edit

/-! # Parsing and serializing a configuration file

A file that is not edited is written back as it was read.  In the other direction, a list of
lines without line ends is read back line by line, and grouping lines into blocks forgets
nothing about them.
-/

namespace Sshelter.Config

open Text

/-! ## Lines of items -/

@[simp] theorem pushItems_append (items more : List Item) :
    pushItems (items ++ more) = pushItems items ++ pushItems more := by
  induction items with
  | nil => rfl
  | cons item rest ih => simp [pushItems, ih]

/-- A header is a directive line. -/
theorem headerKind_eq_some {item : Item} {kind : HeaderKind} {header : Directive}
    (h : headerKind item = some (kind, header)) : item = .Directive header := by
  cases item with
  | Directive d =>
    simp only [headerKind] at h
    split at h
    · cases h
      rfl
    · split at h <;> cases h
      rfl
  | _ => cases h

/-- The lines after a header up to the next one are its body. -/
theorem groupBlocks_header {item : Item} {kind : HeaderKind} {header : Directive}
    (h : headerKind item = some (kind, header)) (rest : List Item) :
    groupBlocks (item :: rest) =
      makeBlock kind header (rest.takeWhile fun next => (headerKind next).isNone) ::
        groupBlocks (rest.dropWhile fun next => (headerKind next).isNone) := by
  rw [groupBlocks, h]

theorem groupBlocks_plain {item : Item} (h : headerKind item = none) (rest : List Item) :
    groupBlocks (item :: rest) = item :: groupBlocks rest := by
  rw [groupBlocks, h]

theorem itemLines_makeBlock (kind : HeaderKind) (header : Directive) (body : List Item) :
    itemLines (makeBlock kind header body) = renderDirective header :: pushItems body := by
  cases kind <;> simp [makeBlock, itemLines]

theorem pushItems_groupBlocks (flat : List Item) : pushItems (groupBlocks flat) = pushItems flat := by
  induction flat using groupBlocks.induct with
  | case1 => simp
  | case2 item rest kind header h inBody ih =>
    obtain rfl := headerKind_eq_some h
    rw [groupBlocks_header h]
    have split := List.takeWhile_append_dropWhile (p := inBody) (l := rest)
    calc pushItems (makeBlock kind header (rest.takeWhile inBody) :: groupBlocks (rest.dropWhile inBody))
        = renderDirective header :: (pushItems (rest.takeWhile inBody) ++ pushItems (rest.dropWhile inBody)) := by
          rw [pushItems, itemLines_makeBlock, ih]
          rfl
      _ = pushItems (.Directive header :: rest) := by
          rw [← pushItems_append, split]
          simp [pushItems, itemLines]
  | case3 item rest h ih =>
    rw [groupBlocks_plain h, pushItems, ih, pushItems]

theorem itemLines_flatItem (u : UnicodeTables) (line : List Char) : itemLines (flatItem u line) = [line] := by
  unfold flatItem classifyLine
  split <;> rename_i kind h
  · rfl
  · rfl
  · split at h
    · cases h
    · simp only at h
      split at h
      · cases h
      · cases h
        rfl

theorem pushItems_flatItem (u : UnicodeTables) (lines : List (List Char)) :
    pushItems (lines.map (flatItem u)) = lines := by
  induction lines with
  | nil => rfl
  | cons line rest ih => rw [List.map_cons, pushItems, itemLines_flatItem, ih, List.singleton_append]

/-! ## Lines of a text -/

theorem splitOnP_newline (text : List Char) :
    text.splitOnP (fun c => decide (c = '\n')) = text.splitOn '\n' := by
  rw [List.splitOn_eq_splitOnP]
  rfl

theorem not_mem_of_mem_splitOn {c : Char} {text line : List Char} (member : line ∈ text.splitOn c) :
    c ∉ line := by
  induction text generalizing line with
  | nil =>
    obtain rfl : line = [] := by simpa using member
    simp
  | cons d rest ih =>
    rw [List.splitOn_cons_eq_if_modifyHead] at member
    split at member
    · rcases List.mem_cons.mp member with rfl | member
      · simp
      · exact ih member
    · rename_i other
      cases split : rest.splitOn c with
      | nil => exact absurd split (List.splitOn_ne_nil c rest)
      | cons first more =>
        rw [split, List.modifyHead_cons] at member
        rcases List.mem_cons.mp member with rfl | member
        · have clear : c ∉ first := ih (by rw [split]; exact List.mem_cons_self)
          have differ : c ≠ d := by
            rintro rfl
            simp at other
          simp [clear, differ]
        · exact ih (by rw [split]; exact List.mem_cons_of_mem _ member)

/-- A file that is not edited is written back as it was read. -/
theorem serializeItems_parseFile (u : UnicodeTables) (text : List Char) :
    serializeItems (parseFile u text).1 (parseFile u text).2 = text := by
  unfold parseFile
  by_cases empty : text = []
  · subst empty
    rfl
  · rw [if_neg (by simpa using empty), serializeItems]
    show ['\n'].intercalate (pushItems (groupBlocks _)) ++ _ = text
    rw [pushItems_groupBlocks, pushItems_flatItem, splitOnP_newline, List.intercalate_splitOn]
    by_cases last : text.getLast? = some '\n'
    · simp only [last, decide_true, if_true]
      exact List.dropLast_append_getLast? _ last
    · simp [last]

/-- The lines a reader sees of lines written one after another: an empty last line of a file
without a final newline is taken for the end of the line before. -/
def linesRead (lines : List (List Char)) (trailingNewline : Bool) : List (List Char) :=
  if trailingNewline = false ∧ lines.getLast? = some [] then lines.dropLast else lines

theorem parseFile_closed (u : UnicodeTables) {lines : List (List Char)} (some_ : lines ≠ [])
    (single : ∀ line ∈ lines, '\n' ∉ line) :
    (parseFile u (['\n'].intercalate lines ++ ['\n'])).1 = groupBlocks (lines.map (flatItem u)) := by
  unfold parseFile
  rw [if_neg (by simp)]
  show groupBlocks (List.map (flatItem u) (List.splitOnP _ (if _ then _ else _))) = _
  rw [if_pos (by simp), List.dropLast_concat, splitOnP_newline, List.splitOn_intercalate '\n' single some_]

theorem getLast?_intercalate {lines : List (List Char)} {line : List Char} (last : lines.getLast? = some line)
    (text : line ≠ []) : (['\n'].intercalate lines).getLast? = line.getLast? := by
  induction lines with
  | nil => cases last
  | cons first rest ih =>
    cases rest with
    | nil =>
      obtain rfl : first = line := by simpa using last
      simp
    | cons second more =>
      rw [List.getLast?_cons_cons] at last
      rw [List.intercalate_cons_cons, List.getLast?_append, ih last]
      cases line with
      | nil => exact absurd rfl text
      | cons c others => simp [List.getLast?_cons]

theorem parseFile_open (u : UnicodeTables) {lines : List (List Char)} {line : List Char}
    (last : lines.getLast? = some line) (text : line ≠ []) (single : ∀ line ∈ lines, '\n' ∉ line) :
    (parseFile u (['\n'].intercalate lines)).1 = groupBlocks (lines.map (flatItem u)) := by
  have some_ : lines ≠ [] := by
    rintro rfl
    cases last
  have ending := getLast?_intercalate last text
  have member : line ∈ lines := List.mem_of_getLast? last
  have noNewline : (['\n'].intercalate lines).getLast? ≠ some '\n' := by
    rw [ending]
    intro newline
    exact single line member (List.mem_of_getLast? newline)
  have nonempty : ['\n'].intercalate lines ≠ [] := by
    intro empty
    rw [empty] at ending
    cases line with
    | nil => exact text rfl
    | cons c others => simp [List.getLast?_cons] at ending
  unfold parseFile
  rw [if_neg (by simpa using nonempty)]
  show groupBlocks (List.map (flatItem u) (List.splitOnP _ (if _ then _ else _))) = _
  rw [if_neg (by simpa using noNewline), splitOnP_newline, List.splitOn_intercalate '\n' single some_]

theorem intercalate_empty_last (first : List Char) (rest : List (List Char)) :
    ['\n'].intercalate (first :: rest ++ [[]]) = ['\n'].intercalate (first :: rest) ++ ['\n'] := by
  induction rest generalizing first with
  | nil => simp
  | cons second more ih =>
    rw [List.cons_append, List.cons_append, List.intercalate_cons_cons, ← List.cons_append, ih,
      List.intercalate_cons_cons, List.append_assoc, List.append_assoc, List.append_assoc]

theorem parseFile_written (u : UnicodeTables) {lines : List (List Char)} (trailingNewline : Bool)
    (some_ : lines ≠ []) (single : ∀ line ∈ lines, '\n' ∉ line) :
    (parseFile u (['\n'].intercalate lines ++ if trailingNewline then ['\n'] else [])).1 =
      groupBlocks ((linesRead lines trailingNewline).map (flatItem u)) := by
  cases trailingNewline with
  | true =>
    rw [if_pos rfl, parseFile_closed u some_ single, linesRead, if_neg (by simp)]
  | false =>
    rw [if_neg Bool.false_ne_true, List.append_nil, linesRead]
    cases last : lines.getLast? with
    | none =>
      rw [List.getLast?_eq_none_iff] at last
      exact absurd last some_
    | some line =>
      by_cases empty : line = []
      · subst empty
        rw [if_pos ⟨rfl, rfl⟩]
        have parts : lines.dropLast ++ [[]] = lines := List.dropLast_append_getLast? _ last
        rw [← parts, List.dropLast_concat]
        cases before : lines.dropLast with
        | nil => simp [parseFile]
        | cons first rest =>
          rw [intercalate_empty_last]
          apply parseFile_closed u (by simp)
          intro line member
          rw [← before] at member
          exact single line (List.mem_of_mem_dropLast member)
      · rw [if_neg (by simp [empty]), parseFile_open u last empty single]

/-- The lines of a text that is parsed.  Without a final newline the last one is not empty. -/
theorem parseFile_lines_read (u : UnicodeTables) (text : List Char) :
    ∃ lines : List (List Char), (∀ line ∈ lines, '\n' ∉ line) ∧
      (parseFile u text).1 = groupBlocks (lines.map (flatItem u)) ∧
      ((parseFile u text).2 = false → lines.getLast? ≠ some []) := by
  unfold parseFile
  by_cases empty : text = []
  · subst empty
    exact ⟨[], by simp, by simp, by simp⟩
  · rw [if_neg (by simpa using empty)]
    refine ⟨_, ?_, rfl, ?_⟩
    · intro line member
      rw [splitOnP_newline] at member
      exact not_mem_of_mem_splitOn member
    · intro open_
      have noNewline : text.getLast? ≠ some '\n' := by simpa using open_
      rw [if_neg (by simpa using noNewline), splitOnP_newline]
      intro last
      have parts := List.dropLast_append_getLast? _ last
      have whole := @List.intercalate_splitOn _ text _ _ '\n'
      rw [← parts] at whole
      cases before : (text.splitOn '\n').dropLast with
      | nil =>
        rw [before] at whole
        exact empty (by simpa using whole.symm)
      | cons first rest =>
        rw [before, intercalate_empty_last] at whole
        rw [← whole] at noNewline
        simp at noNewline

/-! ## Blocks -/

def Item.isBlock : Item → Bool
  | .Host .. => true
  | .Match .. => true
  | _ => false

theorem flatItem_not_block (u : UnicodeTables) (line : List Char) : (flatItem u line).isBlock = false := by
  unfold flatItem
  cases classifyLine u line <;> rfl

/-- Items that are empty or begin with a header. -/
def StartsBlock (items : List Item) : Prop := ∀ item, items.head? = some item → (headerKind item).isSome = true

theorem groupBlocks_append {flat rest : List Item} (starts : StartsBlock rest) :
    groupBlocks (flat ++ rest) = groupBlocks flat ++ groupBlocks rest := by
  induction flat using groupBlocks.induct with
  | case1 => simp
  | case2 item others kind header h inBody ih =>
    have stop : rest.takeWhile inBody = [] ∧ rest.dropWhile inBody = rest := by
      cases rest with
      | nil => exact ⟨rfl, rfl⟩
      | cons first more =>
        have header := Option.isSome_iff_ne_none.mp (starts first rfl)
        constructor <;> simp [inBody, header]
    have taken : (others ++ rest).takeWhile inBody = others.takeWhile inBody := by
      rw [List.takeWhile_append, stop.1, List.append_nil]
      split
      · rename_i full
        exact (List.IsPrefix.eq_of_length (List.takeWhile_prefix _) full).symm
      · rfl
    have dropped : (others ++ rest).dropWhile inBody = others.dropWhile inBody ++ rest := by
      rw [List.dropWhile_append, stop.2]
      split
      · rename_i none_
        rw [List.isEmpty_iff.mp none_, List.nil_append]
      · rfl
    rw [List.cons_append, groupBlocks_header h, groupBlocks_header h, taken, dropped, ih, List.cons_append]
  | case3 item others h ih =>
    rw [List.cons_append, groupBlocks_plain h, groupBlocks_plain h, ih, List.cons_append]

theorem groupBlocks_block {kind : HeaderKind} {header : Directive} {body : List Item}
    (h : headerKind (.Directive header) = some (kind, header)) (plain : ∀ item ∈ body, headerKind item = none) :
    groupBlocks (.Directive header :: body) = [makeBlock kind header body] := by
  have all : ∀ item ∈ body, (headerKind item).isNone = true := by
    intro item member
    rw [plain item member]
    rfl
  rw [groupBlocks_header h, List.takeWhile_eq_self_iff.mpr all, List.dropWhile_eq_nil_iff.mpr all,
    groupBlocks_nil]

/-- Where a block of the result comes from. -/
theorem groupBlocks_eq_append {flat above below : List Item} {block : Item}
    (flat_ : ∀ item ∈ flat, item.isBlock = false) (isBlock : block.isBlock = true)
    (h : groupBlocks flat = above ++ block :: below) :
    ∃ before kind header body after, flat = before ++ (.Directive header :: body) ++ after ∧
      groupBlocks before = above ∧ headerKind (.Directive header) = some (kind, header) ∧
      block = makeBlock kind header body ∧ (∀ item ∈ body, headerKind item = none) ∧
      StartsBlock after ∧ groupBlocks after = below := by
  -- the induction follows the cut into blocks: the block is the header's own or one of a later cut
  induction flat using groupBlocks.induct generalizing above with
  | case1 => simp at h
  | case2 item others kind header hkind inBody =>
    rename_i ih
    obtain rfl := headerKind_eq_some hkind
    rw [groupBlocks_header hkind] at h
    have split := List.takeWhile_append_dropWhile (p := inBody) (l := others)
    have plain : ∀ item ∈ others.takeWhile inBody, headerKind item = none := by
      intro item member
      simpa [inBody] using List.mem_takeWhile_imp member
    cases above with
    | nil =>
      obtain ⟨rfl, rfl⟩ := List.cons.inj h
      refine ⟨[], kind, header, others.takeWhile inBody, others.dropWhile inBody, ?_, by simp,
        hkind, rfl, plain, ?_, rfl⟩
      · rw [List.nil_append, List.cons_append, split]
      · intro item first
        have := List.head?_dropWhile_not inBody others
        rw [first] at this
        simpa [inBody, Option.isSome_iff_ne_none] using this
    | cons first above =>
      obtain ⟨rfl, rest⟩ := List.cons.inj h
      have flatRest : ∀ item ∈ others.dropWhile inBody, item.isBlock = false := fun item member =>
        flat_ item (List.mem_cons_of_mem _ ((List.dropWhile_sublist _).subset member))
      obtain ⟨before, kind', header', body, after, parts, grouped, hkind', same, plain', starts, below_⟩ :=
        ih flatRest rest
      refine ⟨.Directive header :: others.takeWhile inBody ++ before, kind', header', body, after, ?_, ?_,
        hkind', same, plain', starts, below_⟩
      · rw [List.cons_append, List.cons_append, List.cons_append, List.append_assoc, List.append_assoc,
          ← List.append_assoc before, ← parts, split]
      · have startsBefore : StartsBlock before := by
          intro item first
          cases before with
          | nil => cases first
          | cons head more =>
            obtain rfl : head = item := Option.some.inj first
            have := List.head?_dropWhile_not inBody others
            rw [parts, List.append_assoc, List.cons_append, List.head?_cons] at this
            simpa [inBody, Option.isSome_iff_ne_none] using this
        rw [groupBlocks_append startsBefore, groupBlocks_block hkind plain, grouped, List.singleton_append]
  | case3 item others hkind ih =>
    rw [groupBlocks_plain hkind] at h
    cases above with
    | nil =>
      obtain ⟨rfl, -⟩ := List.cons.inj h
      rw [flat_ _ List.mem_cons_self] at isBlock
      cases isBlock
    | cons first above =>
      obtain ⟨rfl, rest⟩ := List.cons.inj h
      obtain ⟨before, kind', header', body, after, rfl, grouped, hkind', same, plain', starts, below_⟩ :=
        ih (fun item member => flat_ item (List.mem_cons_of_mem _ member)) rest
      refine ⟨item :: before, kind', header', body, after, rfl, ?_, hkind', same, plain', starts, below_⟩
      rw [groupBlocks_plain hkind, grouped]

end Sshelter.Config
