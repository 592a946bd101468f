import Sshelter.Verified.ConfigText
import Sshelter.Verified.HostText

/-! # Only what changed is written anew

A line that is marked as edited is put together from its parts.  The parts of a parsed line are
the line, so marking lines of a parsed file changes nothing in its text.
-/

namespace Sshelter.Config

open Text

/-! ## Marking lines -/

/-- The same line, perhaps marked. -/
def Directive.MarkedAs (d marked : Directive) : Prop := marked = d ∨ marked = { d with dirty := true }

mutual

/-- The same item with some of its lines marked: its own, its header, or lines of its body. -/
inductive Item.MarkedAs : Item → Item → Prop
  | Blank (line : List Char) : Item.MarkedAs (.Blank line) (.Blank line)
  | Comment (line : List Char) : Item.MarkedAs (.Comment line) (.Comment line)
  | Directive {d marked : Directive} (line : d.MarkedAs marked) : Item.MarkedAs (.Directive d) (.Directive marked)
  | Host {header marked : Directive} (patterns : List (List Char)) {body markedBody : List Item}
      (line : header.MarkedAs marked) (lines : MarkedItems body markedBody) :
      Item.MarkedAs (.Host header patterns body) (.Host marked patterns markedBody)
  | Match {header marked : Directive} (criteria : List Char) {body markedBody : List Item}
      (line : header.MarkedAs marked) (lines : MarkedItems body markedBody) :
      Item.MarkedAs (.Match header criteria body) (.Match marked criteria markedBody)

/-- The same items with some lines marked. -/
inductive MarkedItems : List Item → List Item → Prop
  | nil : MarkedItems [] []
  | cons {item marked : Item} {rest markedRest : List Item} (first : item.MarkedAs marked)
      (others : MarkedItems rest markedRest) : MarkedItems (item :: rest) (marked :: markedRest)

end

/-! ## Lines that are their parts -/

/-- The line is written the same from its text and from its parts. -/
def Directive.Whole (d : Directive) : Prop :=
  d.enabled = true ∧ d.raw = d.indent ++ (d.keyword ++ (d.separator.text ++ d.rest))

theorem renderDirective_whole {d marked : Directive} (whole : d.Whole) (line : d.MarkedAs marked) :
    renderDirective marked = renderDirective d := by
  obtain ⟨enabled, raw⟩ := whole
  have anew : renderDirective { d with dirty := true } = d.raw := by
    simp [renderDirective, Directive.serializesAsComment, Directive.rest, enabled, raw]
  rcases line with rfl | rfl
  · rfl
  · rw [anew]
    unfold renderDirective
    split
    · rfl
    · next dirty =>
      have same : { d with dirty := true } = d := by
        cases d
        simpa using dirty
      rw [← anew, same, renderDirective, if_neg dirty]

mutual

/-- All lines are their parts. -/
inductive Item.WholeLines : Item → Prop
  | Blank (line : List Char) : Item.WholeLines (.Blank line)
  | Comment (line : List Char) : Item.WholeLines (.Comment line)
  | Directive {d : Directive} (whole : d.Whole) : Item.WholeLines (.Directive d)
  | Host {header : Directive} (patterns : List (List Char)) {body : List Item} (whole : header.Whole)
      (lines : WholeItems body) : Item.WholeLines (.Host header patterns body)
  | Match {header : Directive} (criteria : List Char) {body : List Item} (whole : header.Whole)
      (lines : WholeItems body) : Item.WholeLines (.Match header criteria body)

inductive WholeItems : List Item → Prop
  | nil : WholeItems []
  | cons {item : Item} {rest : List Item} (first : item.WholeLines) (others : WholeItems rest) :
      WholeItems (item :: rest)

end

theorem wholeItems_iff {items : List Item} : WholeItems items ↔ ∀ item ∈ items, item.WholeLines := by
  induction items with
  | nil => exact ⟨fun _ => by simp, fun _ => .nil⟩
  | cons item rest ih =>
    constructor
    · rintro ⟨⟩
      next first others => exact List.forall_mem_cons.mpr ⟨first, ih.mp others⟩
    · intro all
      obtain ⟨first, others⟩ := List.forall_mem_cons.mp all
      exact .cons first (ih.mpr others)

mutual

/-- Marking changes no line. -/
theorem itemLines_marked {item marked : Item} (whole : item.WholeLines) (same : item.MarkedAs marked) :
    itemLines marked = itemLines item := by
  cases same with
  | Blank line => rfl
  | Comment line => rfl
  | Directive line =>
    cases whole with
    | Directive whole => simp only [itemLines, renderDirective_whole whole line]
  | Host patterns line lines =>
    cases whole with
    | Host _ whole bodyWhole =>
      simp only [itemLines, renderDirective_whole whole line, pushItems_marked bodyWhole lines]
  | Match criteria line lines =>
    cases whole with
    | Match _ whole bodyWhole =>
      simp only [itemLines, renderDirective_whole whole line, pushItems_marked bodyWhole lines]

theorem pushItems_marked {items marked : List Item} (whole : WholeItems items) (same : MarkedItems items marked) :
    pushItems marked = pushItems items := by
  cases same with
  | nil => rfl
  | cons first others =>
    cases whole with
    | cons firstWhole othersWhole =>
      simp only [pushItems, itemLines_marked firstWhole first, pushItems_marked othersWhole others]

end

/-! ## Parsed files -/

theorem classifyLine_enabled {u : UnicodeTables} {line : List Char} {d : Directive}
    (classified : classifyLine u line = .Directive d) : d.enabled = true := by
  unfold classifyLine at classified
  split at classified
  · cases classified
  · dsimp only at classified
    split at classified
    · cases classified
    · cases classified
      rfl

theorem flatItem_whole (u : UnicodeTables) (line : List Char) : (flatItem u line).WholeLines := by
  unfold flatItem
  cases classified : classifyLine u line with
  | Blank => exact .Blank line
  | Comment => exact .Comment line
  | Directive d =>
    have laid := Sync.HostsFile.classifyLine_laid classified
    exact .Directive ⟨classifyLine_enabled classified, laid.raw.trans laid.line_eq⟩

theorem groupBlocks_whole {flat : List Item} (whole : ∀ item ∈ flat, item.WholeLines) :
    ∀ item ∈ groupBlocks flat, item.WholeLines := by
  induction flat using groupBlocks.induct with
  | case1 => simp
  | case2 item rest kind header starts inBody ih =>
    obtain rfl := headerKind_eq_some starts
    rw [groupBlocks_header starts]
    obtain ⟨first, others⟩ := List.forall_mem_cons.mp whole
    have body : WholeItems (rest.takeWhile inBody) :=
      wholeItems_iff.mpr fun item member => others item ((List.takeWhile_sublist _).mem member)
    refine List.forall_mem_cons.mpr ⟨?_, ih fun item member => others item ((List.dropWhile_sublist _).mem member)⟩
    cases first with
    | Directive line =>
      cases kind with
      | Host => exact .Host _ line body
      | Match => exact .Match _ line body
  | case3 item rest plain ih =>
    rw [groupBlocks_plain plain]
    obtain ⟨first, others⟩ := List.forall_mem_cons.mp whole
    exact List.forall_mem_cons.mpr ⟨first, ih others⟩

theorem parseFile_whole (u : UnicodeTables) (text : List Char) : WholeItems (parseFile u text).1 := by
  unfold parseFile
  simp only
  split
  · exact .nil
  · refine wholeItems_iff.mpr (groupBlocks_whole fun item member => ?_)
    obtain ⟨line, _, rfl⟩ := List.mem_map.mp member
    exact flatItem_whole u line

/-- A parsed file is written back as it was read, also when lines of it are marked as edited. -/
theorem parsed_file_is_written_back (u : UnicodeTables) (text : List Char) :
    serializeItems (parseFile u text).1 (parseFile u text).2 = text ∧
      ∀ marked, MarkedItems (parseFile u text).1 marked → serializeItems marked (parseFile u text).2 = text := by
  refine ⟨serializeItems_parseFile u text, fun marked same => ?_⟩
  have lines := pushItems_marked (parseFile_whole u text) same
  rw [serializeItems, lines]
  exact serializeItems_parseFile u text

end Sshelter.Config
