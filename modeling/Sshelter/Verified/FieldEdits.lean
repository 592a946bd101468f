import Sshelter.Verified.LineParts

/-! # What ssh reads after a field was edited

A field is picked by its key among the directives in memory, enabled and disabled ones, and
takes effect only when the block is written and read again.  An edit does what it says when the
first directive of the key is live, has a separator and leaves no quote open in front of its
comment; a disabled line takes the value for itself.  What the values of the other lines are
read as does not matter: each line has to be read with its own key.
-/

namespace Sshelter.Config

open Text Sync.HostsFile

variable {u : UnicodeTables}

/-! ## Lines in memory -/

/-- A directive that is written as a line which is read with its key. -/
structure Fitting (u : UnicodeTables) (d : Directive) : Prop extends Keyed u d where
  spaces : ∀ c ∈ d.trailingWs, isWhitespace c = true
  remark : ∀ text, d.inlineComment = some text → d.trailingWs = [] ∧
    ∃ spaces tail, (∀ c ∈ spaces, isWhitespace c = true) ∧ text = spaces ++ '#' :: tail
  single : '\n' ∉ d.parts
  plain : d.key ≠ "host".toList ∧ d.key ≠ "match".toList
  written : d.dirty = false → d.enabled = true ∧ d.raw = d.parts

/-- An item of a body whose line is read as an item of its kind. -/
def Settled (u : UnicodeTables) : Item → Prop
  | .Blank line => '\n' ∉ line ∧ flatItem u line = .Blank line
  | .Comment line => '\n' ∉ line ∧ flatItem u line = .Comment line
  | .Directive d => Fitting u d
  | _ => False

/-- Keys and values of the live directives. -/
def liveFields (body : List Item) : List (List Char × List Char) :=
  ((directives body).filter fun d => !d.serializesAsComment).map fun d => (d.key, d.value)

@[simp] theorem directives_append (body more : List Item) :
    directives (body ++ more) = directives body ++ directives more := List.filterMap_append

@[simp] theorem liveFields_append (body more : List Item) :
    liveFields (body ++ more) = liveFields body ++ liveFields more := by
  simp [liveFields]

theorem liveFields_directive (d : Directive) (rest : List Item) : liveFields (.Directive d :: rest) =
    (if d.serializesAsComment then [] else [(d.key, d.value)]) ++ liveFields rest := by
  cases live : d.serializesAsComment <;> simp [liveFields, directives, live]

theorem liveFields_other {item : Item} (other : item.isDirective = false) (rest : List Item) :
    liveFields (item :: rest) = liveFields rest := by
  cases item <;> first | rfl | cases other

theorem renderDirective_live {d : Directive} (fitting : Fitting u d) (live : d.serializesAsComment = false) :
    renderDirective d = d.parts := by
  unfold renderDirective
  cases dirty : d.dirty with
  | false =>
    obtain ⟨_, raw⟩ := fitting.written dirty
    simp [raw]
  | true => simp [live, Directive.parts]

theorem renderDirective_disabled {d : Directive} (disabled : d.serializesAsComment = true) :
    renderDirective d = d.indent ++ '#' :: ' ' :: (d.keyword ++ (d.separator.text ++ d.rest)) := by
  have dirty : d.dirty = true := by
    simp only [Directive.serializesAsComment, Bool.and_eq_true] at disabled
    exact disabled.2
  simp [renderDirective, dirty, disabled]

theorem flatItem_live {d : Directive} (fitting : Fitting u d) (live : d.serializesAsComment = false) :
    ∃ read, flatItem u (renderDirective d) = .Directive read ∧ read.key = d.key ∧
      read.serializesAsComment = false ∧ (WellLaid u d → read.value = d.value) := by
  obtain ⟨read, classified, _, key, _⟩ := classifyLine_keyed fitting.toKeyed
  refine ⟨read, ?_, key, ?_, fun laid => ?_⟩
  · rw [renderDirective_live fitting live, flatItem, classified]
  · rw [Directive.serializesAsComment, (classifyLine_laid classified).clean, Bool.and_false]
  · obtain ⟨read', classified', _, _, value⟩ := classifyLine_parts laid
    rw [classified] at classified'
    cases classified'
    exact value

theorem flatItem_disabled {d : Directive} (fitting : Fitting u d) (disabled : d.serializesAsComment = true) :
    flatItem u (renderDirective d) = .Comment (renderDirective d) := by
  rw [renderDirective_disabled disabled]
  have visible : ∀ c, ('#' :: ' ' :: (d.keyword ++ (d.separator.text ++ d.rest))).head? = some c →
      isWhitespace c = false := by
    intro c head
    cases head
    rfl
  have trimmed := dropWhile_append_stop fitting.indent visible
  have notBlank : (d.indent ++ '#' :: ' ' :: (d.keyword ++ (d.separator.text ++ d.rest))).all isWhitespace = false := by
    rw [Bool.eq_false_iff]
    intro all
    have hash := List.all_eq_true.mp all '#' (by simp)
    cases hash
  rw [flatItem, classifyLine, if_neg (by simp [notBlank])]
  simp only [trimmed]
  rfl

/-- The fields that the written lines of a body are read as. -/
def writtenFields (u : UnicodeTables) (body : List Item) : List (List Char × List Char) :=
  liveFields ((pushItems body).map (flatItem u))

@[simp] theorem writtenFields_append (body more : List Item) :
    writtenFields u (body ++ more) = writtenFields u body ++ writtenFields u more := by
  simp [writtenFields]

/-- The lines of a settled body are read back as body lines with the same live keys. -/
theorem settled_read {body : List Item} (settled : ∀ item ∈ body, Settled u item) :
    (∀ line ∈ pushItems body, '\n' ∉ line ∧ headerKind (flatItem u line) = none) ∧
      (writtenFields u body).map Prod.fst = (liveFields body).map Prod.fst := by
  unfold writtenFields
  -- each item is written as one line that is read as an item of its kind
  induction body with
  | nil => exact ⟨by simp [pushItems], rfl⟩
  | cons item rest ih =>
    obtain ⟨first, others⟩ := List.forall_mem_cons.mp settled
    obtain ⟨lines, fields⟩ := ih others
    cases item with
    | Blank line =>
      refine ⟨List.forall_mem_cons.mpr ⟨⟨first.1, by rw [first.2]; rfl⟩, lines⟩, ?_⟩
      rw [pushItems, itemLines, List.singleton_append, List.map_cons, first.2, liveFields_other rfl, fields]
      rfl
    | Comment line =>
      refine ⟨List.forall_mem_cons.mpr ⟨⟨first.1, by rw [first.2]; rfl⟩, lines⟩, ?_⟩
      rw [pushItems, itemLines, List.singleton_append, List.map_cons, first.2, liveFields_other rfl, fields]
      rfl
    | Directive d =>
      have fitting : Fitting u d := first
      rw [pushItems, itemLines, List.singleton_append, List.map_cons, liveFields_directive]
      cases live : d.serializesAsComment with
      | false =>
        obtain ⟨read, line, key, clean, _⟩ := flatItem_live fitting live
        refine ⟨List.forall_mem_cons.mpr ⟨⟨?_, ?_⟩, lines⟩, ?_⟩
        · rw [renderDirective_live fitting live]
          exact fitting.single
        · rw [line, headerKind, key, if_neg fitting.plain.1, if_neg fitting.plain.2]
        · rw [line, liveFields_directive, clean, List.map_append, List.map_append, fields]
          simp [key]
      | true =>
        have line := flatItem_disabled fitting live
        refine ⟨List.forall_mem_cons.mpr ⟨⟨?_, by rw [line]; rfl⟩, lines⟩, ?_⟩
        · have parts := fitting.single
          rw [Directive.parts] at parts
          rw [renderDirective_disabled live]
          simp only [List.mem_append, List.mem_cons] at parts ⊢
          simp only [show ('\n' : Char) ≠ '#' by decide, show ('\n' : Char) ≠ ' ' by decide, false_or]
          exact parts
        · rw [line, liveFields_other rfl, fields]
          rfl
    | Host _ _ _ => exact first.elim
    | Match _ _ _ => exact first.elim

/-! ## The block read again -/

/-- The live fields of the one block that the written block is read as. -/
def rereadFields (u : UnicodeTables) (host : HostBlock) (trailingNewline : Bool) :
    Option (List (List Char × List Char)) :=
  match (parseFile u (serializeItems [host.toItem] trailingNewline)).1 with
  | [.Host _ _ body] => some (liveFields body)
  | _ => none

/-- A block in memory whose lines are read with their keys. -/
structure HostReady (u : UnicodeTables) (host : HostBlock) : Prop where
  header : flatItem u (renderDirective host.header) = .Directive host.header
  isHost : headerKind (.Directive host.header) = some (.Host, host.header)
  single : '\n' ∉ renderDirective host.header
  body : ∀ item ∈ host.body, Settled u item

theorem HostReady.reread {host : HostBlock} (ready : HostReady u host) (trailingNewline : Bool) :
    rereadFields u host trailingNewline = some (writtenFields u host.body) := by
  obtain ⟨lines, _⟩ := settled_read ready.body
  have written : pushItems [host.toItem] = renderDirective host.header :: pushItems host.body := by
    simp [pushItems, itemLines, HostBlock.toItem]
  have single : ∀ line ∈ renderDirective host.header :: pushItems host.body, '\n' ∉ line :=
    List.forall_mem_cons.mpr ⟨ready.single, fun line member => (lines line member).1⟩
  have nonempty : renderDirective host.header ≠ [] := by
    intro none_
    have header := ready.header
    rw [none_] at header
    cases header
  -- without a final newline an empty last line is not read
  have kept : ∃ kept, linesRead (renderDirective host.header :: pushItems host.body) trailingNewline =
      renderDirective host.header :: kept ∧ kept.Sublist (pushItems host.body) ∧
        liveFields (kept.map (flatItem u)) = writtenFields u host.body := by
    unfold linesRead
    split
    · next dropped =>
      cases body : pushItems host.body with
      | nil =>
        rw [body] at dropped
        simp only [List.getLast?_singleton, Option.some.injEq] at dropped
        exact absurd dropped.2 nonempty
      | cons first rest =>
        refine ⟨(first :: rest).dropLast, rfl, List.dropLast_sublist _, ?_⟩
        rw [body] at dropped
        rw [List.getLast?_cons_cons] at dropped
        have split := List.dropLast_append_getLast? _ dropped.2
        rw [writtenFields, body, ← split, List.map_append, liveFields_append, List.dropLast_concat]
        have blank : liveFields ([([] : List Char)].map (flatItem u)) = [] := rfl
        rw [blank, List.append_nil]
    · exact ⟨pushItems host.body, rfl, List.Sublist.refl _, rfl⟩
  obtain ⟨kept, read, sublist, same⟩ := kept
  have plain : ∀ item ∈ kept.map (flatItem u), headerKind item = none := by
    intro item member
    obtain ⟨line, inKept, rfl⟩ := List.mem_map.mp member
    exact (lines line (sublist.mem inKept)).2
  have parsed : (parseFile u (serializeItems [host.toItem] trailingNewline)).1 =
      [makeBlock .Host host.header (kept.map (flatItem u))] := by
    rw [serializeItems, written, parseFile_written u _ (by simp) single, read, List.map_cons, ready.header,
      groupBlocks_block ready.isHost plain]
  rw [rereadFields, parsed]
  simp only [makeBlock, same]

/-! ## Parsed files -/

theorem settled_flatItem {line : List Char} (single : '\n' ∉ line) (plain : headerKind (flatItem u line) = none) :
    Settled u (flatItem u line) := by
  cases classified : classifyLine u line with
  | Blank =>
    have here : flatItem u line = .Blank line := by rw [flatItem, classified]
    rw [here]
    exact ⟨single, here⟩
  | Comment =>
    have here : flatItem u line = .Comment line := by rw [flatItem, classified]
    rw [here]
    exact ⟨single, here⟩
  | Directive d =>
    have here : flatItem u line = .Directive d := by rw [flatItem, classified]
    rw [here] at plain ⊢
    obtain ⟨laid, parts⟩ := classifyLine_wellLaid classified
    have line_ := classifyLine_laid classified
    refine ⟨laid.toKeyed, laid.ended.spaces, fun text comment => ?_, by rw [parts]; exact single, ?_,
      fun _ => ⟨classifyLine_enabled classified, by rw [line_.raw, parts]⟩⟩
    · obtain ⟨noTrailing, _, shape⟩ := laid.ended.remark text comment
      exact ⟨noTrailing, shape⟩
    simp only [headerKind] at plain
    split at plain
    · cases plain
    · next notHost =>
      split at plain
      · cases plain
      · next notMatch => exact ⟨notHost, notMatch⟩

theorem hostReady_parsed {text : List Char} {host : HostBlock} (member : host.toItem ∈ (parseFile u text).1) :
    HostReady u host := by
  obtain ⟨lines, single, grouped, _⟩ := parseFile_lines_read u text
  obtain ⟨above, below, parts⟩ := List.append_of_mem member
  rw [grouped] at parts
  have flat : ∀ item ∈ lines.map (flatItem u), item.isBlock = false := by
    intro item member
    obtain ⟨line, _, rfl⟩ := List.mem_map.mp member
    exact flatItem_not_block u line
  obtain ⟨before, kind, header, body, after, split, _, isHeader, block, plain, _⟩ :=
    groupBlocks_eq_append flat rfl parts
  obtain ⟨rfl, rfl, rfl⟩ : kind = .Host ∧ header = host.header ∧ body = host.body := by
    cases kind <;> simp_all [makeBlock, HostBlock.toItem]
  obtain ⟨upTo, back, rfl, frontMap, _⟩ := List.map_eq_append_iff.mp split
  obtain ⟨front, block', rfl, _, blockMap⟩ := List.map_eq_append_iff.mp frontMap
  obtain ⟨headLine, bodyLines, rfl, headItem, bodyMap⟩ := List.map_eq_cons_iff.mp blockMap
  have rendered := renderDirective_of_flatItem headItem
  refine ⟨by rw [rendered, headItem], isHeader, by rw [rendered]; exact single headLine (by simp), ?_⟩
  intro item inBody
  rw [← bodyMap] at inBody
  obtain ⟨line, inLines, rfl⟩ := List.mem_map.mp inBody
  refine settled_flatItem (single line (by simp [inLines])) (plain _ ?_)
  rw [← bodyMap]
  exact List.mem_map_of_mem inLines

/-! ## Values that a line can carry -/

/-- The line of a keyword and a value is read as them. -/
def ParsesBack (u : UnicodeTables) (keyword value : List Char) : Prop :=
  '\n' ∉ value ∧ ∃ d, classifyLine u (keyword ++ ' ' :: value) = .Directive d ∧ d.keyword = keyword ∧ d.value = value

/-- What such a keyword and such a value look like. -/
structure Writable (keyword value : List Char) : Prop where
  letters : ∀ c ∈ keyword, isWhitespace c = false ∧ c ≠ '='
  begins : ∃ c rest, keyword = c :: rest ∧ isWhitespace c = false ∧ c ≠ '#'
  ended : WellEnded value [] none
  notEquals : value.head? ≠ some '='
  single : '\n' ∉ value

theorem ParsesBack.writable {keyword value : List Char} (back : ParsesBack u keyword value) : Writable keyword value := by
  obtain ⟨single, d, classified, rfl, rfl⟩ := back
  obtain ⟨laid, parts⟩ := classifyLine_wellLaid classified
  obtain ⟨first, others, starts, visible, noComment⟩ := laid.begins
  have letters := laid.keyword
  -- the line has one character besides the keyword and the value
  have sizes := congrArg List.length parts
  simp only [Directive.parts, Directive.rest, List.length_append, List.length_cons] at sizes
  have noIndent : d.indent = [] := by
    cases indent : d.indent with
    | nil => rfl
    | cons c more =>
      have space := laid.indent c (by rw [indent]; exact List.mem_cons_self)
      rw [Directive.parts, indent, List.cons_append] at parts
      cases keyword : d.keyword with
      | cons k rest =>
        rw [keyword, List.cons_append] at parts
        obtain ⟨rfl, _⟩ := List.cons.inj parts
        rw [(letters c (by rw [keyword]; exact List.mem_cons_self)).1] at space
        cases space
      | nil =>
        rw [indent, keyword] at sizes
        rw [keyword, List.nil_append] at starts
        rw [starts] at sizes
        simp only [List.length_cons, List.length_nil] at sizes
        omega
  rw [Directive.parts, noIndent, List.nil_append] at parts
  have tail := List.append_cancel_left parts
  cases sep : d.separator.text with
  | nil =>
    rw [sep, laid.separated sep] at tail
    cases tail
  | cons s more =>
    rw [noIndent, sep] at sizes
    simp only [List.length_cons, List.length_nil] at sizes
    have noMore : more = [] := List.eq_nil_of_length_eq_zero (by omega)
    have noTrailing : d.trailingWs = [] := List.eq_nil_of_length_eq_zero (by omega)
    have noRemark : d.inlineComment.getD [] = [] := List.eq_nil_of_length_eq_zero (by omega)
    rw [sep, noMore, List.singleton_append] at tail
    obtain ⟨rfl, _⟩ := List.cons.inj tail
    rw [noMore] at sep
    have ended := laid.ended
    have noComment_ : d.inlineComment = none := by
      cases comment : d.inlineComment with
      | none => rfl
      | some text =>
        obtain ⟨_, _, spaces, tail, _, same⟩ := ended.remark text comment
        rw [comment, Option.getD_some, same] at noRemark
        simp at noRemark
    rw [noTrailing, noComment_] at ended
    refine ⟨letters, ?_, ended, fun equals => ?_, single⟩
    · cases keyword : d.keyword with
      | nil =>
        rw [keyword, sep, List.nil_append] at starts
        obtain ⟨rfl, _⟩ := List.cons.inj starts
        cases visible
      | cons k rest =>
        rw [keyword, List.cons_append] at starts
        obtain ⟨rfl, _⟩ := List.cons.inj starts
        exact ⟨k, rest, rfl, visible, noComment⟩
    · have same := laid.equals equals
      rw [sep] at same
      revert same
      decide

theorem sanitizeValue_eq {value : List Char} (noReturn : '\r' ∉ value) (single : '\n' ∉ value) :
    sanitizeValue value = value := by
  rw [sanitizeValue, List.filter_eq_self]
  intro c member
  have notReturn : c ≠ '\r' := fun same => noReturn (same ▸ member)
  have notNewline : c ≠ '\n' := fun same => single (same ▸ member)
  simp [notReturn, notNewline]

theorem sanitizeValue_single (value : List Char) : '\n' ∉ sanitizeValue value := by simp [sanitizeValue]

/-- A keyword that a line of its own is read with, whatever the value. -/
structure OwnKeyword (u : UnicodeTables) (keyword : List Char) : Prop where
  letters : ∀ c ∈ keyword, isWhitespace c = false ∧ c ≠ '='
  begins : ∃ c rest, keyword = c :: rest ∧ c ≠ '#'
  plain : lowercase u keyword ≠ "host".toList ∧ lowercase u keyword ≠ "match".toList

/-- A new line is read with its keyword. -/
theorem OwnKeyword.new_fitting {keyword indent : List Char} (own : OwnKeyword u keyword) (value : List Char)
    (spaces : ∀ c ∈ indent, isWhitespace c = true) (single : '\n' ∉ indent) :
    Fitting u (Directive.new u keyword value indent) := by
  obtain ⟨c, rest, rfl, notHash⟩ := own.begins
  have inKeyword : '\n' ∉ c :: rest := by
    intro member
    have visible := (own.letters '\n' member).1
    cases visible
  refine
    { key := rfl, indent := spaces, keyword := own.letters
      begins := ⟨c, rest ++ [' '], rfl, (own.letters c List.mem_cons_self).1, notHash⟩
      separator := ⟨false, rfl⟩
      separated := fun none_ => by cases none_
      spaces := fun c member => by cases member
      remark := fun text comment => by cases comment
      single := ?_
      plain := own.plain
      written := fun clean => by cases clean }
  simp only [Directive.new, Directive.parts, Directive.rest, Separator.text, List.mem_append, List.mem_singleton, not_or,
    Option.getD_none, List.not_mem_nil, not_false_eq_true, and_true]
  exact ⟨single, inKeyword, by decide, sanitizeValue_single value⟩

/-- A line with a separator is read with its key whatever its value. -/
theorem Fitting.withValue {d : Directive} (fitting : Fitting u d) {value : List Char} (single : '\n' ∉ value)
    (separator : d.separator.text ≠ []) : Fitting u { d with value, dirty := true } where
  key := fitting.key
  indent := fitting.indent
  keyword := fitting.keyword
  begins := fitting.begins
  separator := fitting.separator
  separated := fun none_ => absurd none_ separator
  spaces := fitting.spaces
  remark := fitting.remark
  single := by
    have parts := fitting.single
    simp only [Directive.parts, Directive.rest, List.mem_append, not_or] at parts ⊢
    exact ⟨parts.1, parts.2.1, parts.2.2.1, ⟨single, parts.2.2.2.1.2⟩, parts.2.2.2.2⟩
  plain := fitting.plain
  written := fun clean => by cases clean

/-- A line is read back whole when its value can be read and leaves no quote open before the comment. -/
theorem Fitting.wellLaid {d : Directive} (fitting : Fitting u d) {keyword : List Char} (writable : Writable keyword d.value)
    (closed : d.inlineComment ≠ none → leavesQuote false d.value = false) : WellLaid u d where
  toKeyed := fitting.toKeyed
  equals := fun head => absurd head writable.notEquals
  ended :=
    { trimmed := writable.ended.trimmed, visible := writable.ended.visible, plain := writable.ended.plain
      spaces := fitting.spaces
      remark := fun text comment => by
        obtain ⟨noTrailing, shape⟩ := fitting.remark text comment
        exact ⟨noTrailing, closed (by rw [comment]; simp), shape⟩ }

theorem Fitting.live_iff {d : Directive} (fitting : Fitting u d) : d.serializesAsComment = false ↔ d.enabled = true := by
  unfold Directive.serializesAsComment
  cases dirty : d.dirty with
  | false =>
    have written := fitting.written dirty
    simp [written.1]
  | true => cases d.enabled <;> simp

theorem Fitting.setEnabled {d : Directive} (fitting : Fitting u d) (enabled : Bool) :
    Fitting u (setDirectiveEnabled d enabled) where
  key := fitting.key
  indent := fitting.indent
  keyword := fitting.keyword
  begins := fitting.begins
  separator := fitting.separator
  separated := fitting.separated
  spaces := fitting.spaces
  remark := fitting.remark
  single := fitting.single
  plain := fitting.plain
  written := fun clean => by cases clean

/-! ## The edits -/

/-- The first directive of a key, enabled or not. -/
def firstOf (key : List Char) (body : List Item) : Option Directive := (directives body).find? fun d => d.key = key

/-- The value that ssh reads for a key. -/
def readValue (key : List Char) (fields : List (List Char × List Char)) : Option (List Char) :=
  (fields.find? fun field => field.1 = key).map Prod.snd

/-- The line that the edit writes is read with its key: the line that takes the value has a separator, or the new
line's keyword is one. -/
def KeyFits (u : UnicodeTables) (host : HostBlock) (keyword value : List Char) : Prop :=
  match firstOf (lowercase u keyword) host.body with
  | some d => d.separator.text = [] → d.value = sanitizeValue value
  | none => OwnKeyword u keyword

/-- The edit finds a line that can take the value, or none. -/
def SetFits (u : UnicodeTables) (host : HostBlock) (keyword value : List Char) : Prop :=
  (lowercase u keyword ≠ "host".toList ∧ lowercase u keyword ≠ "match".toList) ∧ '\r' ∉ value ∧
    ∀ d, firstOf (lowercase u keyword) host.body = some d → d.serializesAsComment = false ∧
      (d.separator.text = [] → d.value = value) ∧ (d.inlineComment ≠ none → leavesQuote false value = false)

/-- When some line of the key is live, the first one is. -/
def RemoveFits (u : UnicodeTables) (host : HostBlock) (keyword : List Char) : Prop :=
  (∃ d ∈ directives host.body, d.key = lowercase u keyword ∧ d.serializesAsComment = false) →
    ∀ d, firstOf (lowercase u keyword) host.body = some d → d.serializesAsComment = false

/-- One line is new: it stands for the first directive of the key, or between two lines when there is none. -/
def ChangesLine (u : UnicodeTables) (host edited : HostBlock) (keyword : List Char) : Prop :=
  ∃ before old new after, host.body = before ++ old ++ after ∧
    pushItems edited.body = pushItems before ++ new :: pushItems after ∧
    old = ((firstOf (lowercase u keyword) host.body).map Item.Directive).toList ∧
    ∀ other ∈ directives before, other.key ≠ lowercase u keyword

/-- The block is written with one line changed or added and reads the key as the value. -/
def SetsField (u : UnicodeTables) (host : HostBlock) (keyword value : List Char) : Prop :=
  let edited := (setHostField u host keyword value).1
  edited.header = host.header ∧ ChangesLine u host edited keyword ∧
    ∀ trailingNewline, ∃ fields, rereadFields u edited trailingNewline = some fields ∧
      readValue (lowercase u keyword) fields = some value

/-- The block is read with one live line of the key less, if there was one. -/
def RemovesLine (u : UnicodeTables) (host : HostBlock) (keyword : List Char) : Prop :=
  ∀ trailingNewline, ∃ before after, rereadFields u host trailingNewline = some before ∧
    rereadFields u (removeHostField u host keyword).1 trailingNewline = some after ∧
    let count (fields : List (List Char × List Char)) := fields.countP fun field => field.1 = lowercase u keyword
    (0 < count before → count after + 1 = count before)

theorem firstOf_eq (key : List Char) (body : List Item) :
    body.find? (Item.hasKey key) = (firstOf key body).map Item.Directive := by
  induction body with
  | nil => rfl
  | cons item rest ih =>
    cases item with
    | Directive d =>
      by_cases here : d.key = key
      · simp [firstOf, directives, Item.hasKey, here]
      · have inRest : firstOf key (.Directive d :: rest) = firstOf key rest := by
          simp [firstOf, directives, here]
        rw [inRest, ← ih]
        simp [Item.hasKey, here]
    | _ => exact ih

theorem directives_mem {body : List Item} {d : Directive} : d ∈ directives body ↔ .Directive d ∈ body := by
  simp only [directives, List.mem_filterMap]
  constructor
  · rintro ⟨item, member, found⟩
    cases item <;> simp_all
  · exact fun member => ⟨_, member, rfl⟩

theorem settled_directive {body : List Item} (settled : ∀ item ∈ body, Settled u item) {d : Directive}
    (member : d ∈ directives body) : Fitting u d := settled _ (directives_mem.mp member)

/-- The first occurrence among the live fields of a body. -/
theorem readValue_append {key : List Char} {front back : List (List Char × List Char)} {value : List Char}
    (none_ : ∀ field ∈ front, field.1 ≠ key) : readValue key (front ++ (key, value) :: back) = some value := by
  have skipped : front.find? (fun field => decide (field.1 = key)) = none := by
    rw [List.find?_eq_none]
    intro field member
    simpa using none_ field member
  simp [readValue, List.find?_append, skipped]

/-- Lines of other keys are read as fields of other keys. -/
theorem writtenFields_key {key : List Char} {body : List Item} (settled : ∀ item ∈ body, Settled u item)
    (none_ : ∀ d ∈ directives body, d.key ≠ key) : ∀ field ∈ writtenFields u body, field.1 ≠ key := by
  intro field member
  have keys := List.mem_map_of_mem (f := Prod.fst) member
  rw [(settled_read settled).2] at keys
  obtain ⟨field', inLive, same⟩ := List.mem_map.mp keys
  obtain ⟨d, live, rfl⟩ := List.mem_map.mp inLive
  rw [← same]
  exact none_ d (List.mem_of_mem_filter live)

/-- The value of a live line that is read back, behind lines of other keys. -/
theorem readValue_line {key : List Char} {before : List Item} {d : Directive} (after : List Item)
    (settled : ∀ item ∈ before, Settled u item) (none_ : ∀ other ∈ directives before, other.key ≠ key)
    (fitting : Fitting u d) (laid : WellLaid u d) (live : d.serializesAsComment = false) (here : d.key = key) :
    readValue key (writtenFields u (before ++ .Directive d :: after)) = some d.value := by
  obtain ⟨read, line, sameKey, clean, value⟩ := flatItem_live fitting live
  have field : writtenFields u (.Directive d :: after) = (key, d.value) :: writtenFields u after := by
    rw [writtenFields, pushItems, itemLines, List.singleton_append, List.map_cons, line, liveFields_directive, clean,
      sameKey, value laid, here]
    rfl
  rw [writtenFields_append, field]
  exact readValue_append (writtenFields_key settled none_)

/-- The indent of a new line is whitespace. -/
theorem inferIndent_spaces {body : List Item} (settled : ∀ item ∈ body, Settled u item) :
    (∀ c ∈ inferIndent body, isWhitespace c = true) ∧ '\n' ∉ inferIndent body := by
  induction body with
  | nil =>
    refine ⟨?_, by simp [inferIndent]⟩
    intro c member
    simp only [inferIndent, List.mem_cons, List.not_mem_nil, or_false, or_self] at member
    rw [member]
    rfl
  | cons item rest ih =>
    obtain ⟨first, others⟩ := List.forall_mem_cons.mp settled
    cases item with
    | Directive d =>
      have fitting : Fitting u d := first
      have single := fitting.single
      rw [Directive.parts, List.mem_append, not_or] at single
      exact ⟨fitting.indent, single.1⟩
    | _ => exact ih others

/-- The first directive of a key, and what giving it a value does. -/
theorem firstOf_parts {key : List Char} {body : List Item} {d : Directive} (first : firstOf key body = some d) :
    ∃ before after, body = before ++ .Directive d :: after ∧ d.key = key ∧
      (∀ other ∈ directives before, other.key ≠ key) ∧
      (∀ value, setFirst key value body =
        if d.value = value then some (body, false)
        else some (before ++ .Directive { d with value, dirty := true } :: after, true)) ∧
      body.eraseP (Item.hasKey key) = before ++ after := by
  induction body with
  | nil => cases first
  | cons item rest ih =>
    -- an item that is not a directive of the key is passed over
    have later (other : item.hasKey key = false) (first : firstOf key rest = some d)
        (none_ : ∀ d ∈ directives [item], d.key ≠ key) :
        ∃ before after, item :: rest = before ++ .Directive d :: after ∧ d.key = key ∧
          (∀ other ∈ directives before, other.key ≠ key) ∧
          (∀ value, setFirst key value (item :: rest) =
            if d.value = value then some (item :: rest, false)
            else some (before ++ .Directive { d with value, dirty := true } :: after, true)) ∧
          (item :: rest).eraseP (Item.hasKey key) = before ++ after := by
      obtain ⟨before, after, parts, here, others, set, erased⟩ := ih first
      refine ⟨item :: before, after, by rw [parts, List.cons_append], here, ?_, fun value => ?_, ?_⟩
      · intro other' member
        rw [← List.singleton_append, directives_append, List.mem_append] at member
        rcases member with member | member
        · exact none_ other' member
        · exact others other' member
      · rw [setFirst_cons_of_ne value other, set]
        split <;> rfl
      · rw [List.eraseP_cons_of_neg (by simp [other]), erased, List.cons_append]
    cases item with
    | Directive e =>
      by_cases here : e.key = key
      · have same : e = d := by simpa [firstOf, directives, here] using first
        subst same
        refine ⟨[], rest, rfl, here, by simp [directives], fun value => ?_, ?_⟩
        · simp only [setFirst, if_pos here]
          rfl
        · rw [List.eraseP_cons_of_pos (by simp [Item.hasKey, here])]
          rfl
      · refine later (by simp [Item.hasKey, here]) (by simpa [firstOf, directives, here] using first) ?_
        simpa [directives] using here
    | _ => exact later rfl first (by simp [directives])

/-- Where a new line goes. -/
theorem insertDirective_eq (host : HostBlock) (keyword value : List Char) : ∃ front back, host.body = front ++ back ∧
    insertDirective u host keyword value =
      { host with body := front ++ .Directive (.new u keyword value (inferIndent host.body)) :: back } := by
  unfold insertDirective
  simp only
  split
  · exact ⟨host.body, [], by rw [List.append_nil], rfl⟩
  · exact ⟨host.body.rdropWhile fun item => !item.isDirective, host.body.rtakeWhile fun item => !item.isDirective,
      (List.rdropWhile_append_rtakeWhile (p := fun item => !item.isDirective) (l := host.body)).symm, rfl⟩

theorem HostReady.withBody {host : HostBlock} (ready : HostReady u host) {body : List Item}
    (settled : ∀ item ∈ body, Settled u item) : HostReady u { host with body } :=
  ⟨ready.header, ready.isHost, ready.single, settled⟩

theorem settled_insert {before after : List Item} {d : Directive} (old : List Item)
    (settled : ∀ item ∈ before ++ old ++ after, Settled u item) (fitting : Fitting u d) :
    ∀ item ∈ before ++ .Directive d :: after, Settled u item := by
  intro item member
  simp only [List.mem_append, List.mem_cons] at member
  rcases member with member | rfl | member
  · exact settled item (by simp [member])
  · exact fitting
  · exact settled item (by simp [member])

/-- What an edit of a field does: a new line at the end, or another value on the first line of the key. -/
theorem setHostField_cases (host : HostBlock) (keyword value : List Char) :
    (firstOf (lowercase u keyword) host.body = none ∧ ∃ before after, host.body = before ++ after ∧
      (setHostField u host keyword value).1 = { host with
        body := before ++ .Directive (.new u keyword (sanitizeValue value) (inferIndent host.body)) :: after }) ∨
    ∃ d before after, firstOf (lowercase u keyword) host.body = some d ∧ d.key = lowercase u keyword ∧
      host.body = before ++ .Directive d :: after ∧ (∀ other ∈ directives before, other.key ≠ lowercase u keyword) ∧
      (setHostField u host keyword value).1 =
        if d.value = sanitizeValue value then host
        else { host with
          body := before ++ .Directive { d with value := sanitizeValue value, dirty := true } :: after } := by
  have found := firstOf_eq (lowercase u keyword) host.body
  cases first : firstOf (lowercase u keyword) host.body with
  | none =>
    rw [first, Option.map_none] at found
    obtain ⟨before, after, parts, inserted⟩ := insertDirective_eq (u := u) host keyword (sanitizeValue value)
    exact .inl ⟨rfl, before, after, parts, by simp only [setHostField, setFirst_missing _ found, inserted]⟩
  | some d =>
    obtain ⟨before, after, parts, key, others, result, _⟩ := firstOf_parts first
    refine .inr ⟨d, before, after, rfl, key, parts, others, ?_⟩
    by_cases unchanged : d.value = sanitizeValue value
    · simp only [setHostField, result, if_pos unchanged]
    · simp only [setHostField, result, if_neg unchanged]

/-- After an edit whose line is read with its key all lines still are. -/
theorem HostReady.set {host : HostBlock} (ready : HostReady u host) {keyword value : List Char}
    (fits : KeyFits u host keyword value) : HostReady u (setHostField u host keyword value).1 := by
  have settled := ready.body
  have spaces := inferIndent_spaces settled
  unfold KeyFits at fits
  obtain ⟨none_, before, after, parts, edited⟩ | ⟨d, before, after, first, _, parts, _, edited⟩ :=
    setHostField_cases (u := u) host keyword value
  · rw [none_] at fits
    rw [edited]
    refine ready.withBody (settled_insert [] ?_ (fits.new_fitting _ spaces.1 spaces.2))
    rwa [List.append_nil, ← parts]
  · rw [first] at fits
    rw [edited]
    split
    · exact ready
    · next changed =>
      have fitting := settled_directive settled (List.mem_of_find?_eq_some first)
      refine ready.withBody (settled_insert [.Directive d] ?_
        (fitting.withValue (sanitizeValue_single value) fun none_ => changed (fits none_)))
      rwa [List.append_assoc, List.singleton_append, ← parts]

theorem ParsesBack.ownKeyword {keyword value : List Char} (back : ParsesBack u keyword value)
    (plain : lowercase u keyword ≠ "host".toList ∧ lowercase u keyword ≠ "match".toList) : OwnKeyword u keyword := by
  obtain ⟨c, rest, starts, _, notHash⟩ := back.writable.begins
  exact ⟨back.writable.letters, ⟨c, rest, starts, notHash⟩, plain⟩

theorem ParsesBack.keyFits {host : HostBlock} {keyword value : List Char} (back : ParsesBack u keyword value)
    (fits : SetFits u host keyword value) : KeyFits u host keyword value := by
  obtain ⟨plain, noReturn, first⟩ := fits
  rw [KeyFits, sanitizeValue_eq noReturn back.writable.single]
  split
  · next d here => exact (first d here).2.1
  · exact back.ownKeyword plain

/-- A field edit that fits changes one line, and the key is read as the value. -/
theorem HostReady.sets {host : HostBlock} (ready : HostReady u host) {keyword value : List Char}
    (back : ParsesBack u keyword value) (fits : SetFits u host keyword value) : SetsField u host keyword value := by
  have edited := ready.set (back.keyFits fits)
  obtain ⟨_, noReturn, takes⟩ := fits
  have writable := back.writable
  have same := sanitizeValue_eq noReturn writable.single
  have settled := ready.body
  suffices changes : (setHostField u host keyword value).1.header = host.header ∧
      ChangesLine u host (setHostField u host keyword value).1 keyword ∧
      readValue (lowercase u keyword) (writtenFields u (setHostField u host keyword value).1.body) = some value from
    ⟨changes.1, changes.2.1, fun trailingNewline => ⟨_, edited.reread trailingNewline, changes.2.2⟩⟩
  have inBody := edited.body
  obtain ⟨none_, before, after, parts, result⟩ | ⟨d, before, after, first, key, parts, others, result⟩ :=
    setHostField_cases (u := u) host keyword value
  · -- no line has the key, so one is added behind the first part of the block
    rw [same] at result
    have absent : ∀ d ∈ directives before, d.key ≠ lowercase u keyword := by
      intro d member
      have inHost : d ∈ directives host.body := by rw [parts, directives_append]; exact List.mem_append_left _ member
      simpa using List.find?_eq_none.mp none_ d inHost
    rw [result] at inBody ⊢
    have fitting : Fitting u (.new u keyword value (inferIndent host.body)) :=
      inBody (.Directive _) (List.mem_append_right _ List.mem_cons_self)
    have value_ : (Directive.new u keyword value (inferIndent host.body)).value = value := same
    refine ⟨rfl, ⟨before, [], renderDirective (.new u keyword value (inferIndent host.body)), after,
      by rw [List.append_nil, parts], by simp [pushItems, itemLines], by rw [none_]; rfl, absent⟩, ?_⟩
    have read := readValue_line after (fun item member => settled item (by rw [parts]; simp [member])) absent
      fitting (fitting.wellLaid (value_.symm ▸ writable) fun comment => absurd rfl comment) rfl rfl
    rwa [value_] at read
  · -- the first line of the key takes the value
    obtain ⟨live, separator, closed⟩ := takes d first
    rw [same] at result
    have before_ : ∀ item ∈ before, Settled u item := fun item member => settled item (by rw [parts]; simp [member])
    have found : ((firstOf (lowercase u keyword) host.body).map Item.Directive).toList = [.Directive d] := by rw [first]; rfl
    have split : host.body = before ++ [.Directive d] ++ after := by
      rw [parts, List.append_assoc, List.singleton_append]
    have fitting := settled_directive settled (List.mem_of_find?_eq_some first)
    rw [result] at inBody ⊢
    split at inBody
    · next unchanged =>
      rw [if_pos unchanged]
      refine ⟨rfl, ⟨before, _, renderDirective d, after, split, ?_, found.symm, others⟩, ?_⟩
      · rw [parts, pushItems_append, pushItems, itemLines, List.singleton_append]
      · rw [parts]
        have read := readValue_line after before_ others fitting
          (fitting.wellLaid (unchanged.symm ▸ writable) (unchanged.symm ▸ closed)) live key
        rwa [unchanged] at read
    · next changed =>
      rw [if_neg changed]
      have newFitting : Fitting u { d with value, dirty := true } :=
        inBody (.Directive _) (List.mem_append_right _ List.mem_cons_self)
      have enabled := fitting.live_iff.mp live
      have stays : Directive.serializesAsComment { d with value, dirty := true } = false := by
        simp [Directive.serializesAsComment, enabled]
      refine ⟨rfl, ⟨before, _, renderDirective { d with value, dirty := true }, after, split, ?_, found.symm, others⟩, ?_⟩
      · rw [pushItems_append, pushItems, itemLines, List.singleton_append]
      · exact readValue_line after before_ others newFitting (newFitting.wellLaid writable closed) stays key

theorem HostReady.removed {host : HostBlock} (ready : HostReady u host) (keyword : List Char) :
    HostReady u (removeHostField u host keyword).1 :=
  ready.withBody fun item member => ready.body item (List.mem_of_mem_eraseP member)

theorem countP_writtenFields (key : List Char) {body : List Item} (settled : ∀ item ∈ body, Settled u item) :
    (writtenFields u body).countP (fun field => field.1 = key) =
      (directives body).countP fun d => decide (d.key = key) && !d.serializesAsComment := by
  have byKey (fields : List (List Char × List Char)) : fields.countP (fun field => field.1 = key) =
      (fields.map Prod.fst).countP fun name => name = key := by
    rw [List.countP_map]
    rfl
  rw [byKey, (settled_read settled).2, ← byKey, liveFields, List.countP_map, List.countP_filter]
  rfl

/-- Removing a field takes a live line away exactly when the first line of the key is live or none is. -/
theorem HostReady.removes_iff {host : HostBlock} (ready : HostReady u host) (keyword : List Char) :
    RemovesLine u host keyword ↔ RemoveFits u host keyword := by
  have after := ready.removed keyword
  have counts : RemovesLine u host keyword ↔
      (0 < (writtenFields u host.body).countP (fun field => field.1 = lowercase u keyword) →
        (writtenFields u (removeHostField u host keyword).1.body).countP (fun field => field.1 = lowercase u keyword) + 1 =
          (writtenFields u host.body).countP (fun field => field.1 = lowercase u keyword)) := by
    constructor
    · intro removes
      obtain ⟨_, _, readBefore, readAfter, counted⟩ := removes true
      rw [ready.reread] at readBefore
      rw [after.reread] at readAfter
      cases readBefore
      cases readAfter
      exact counted
    · exact fun counted trailingNewline => ⟨_, _, ready.reread trailingNewline, after.reread trailingNewline, counted⟩
  rw [counts, countP_writtenFields _ ready.body, countP_writtenFields _ after.body]
  simp only [removeHostField, RemoveFits]
  have positive : 0 < (directives host.body).countP
        (fun d => decide (d.key = lowercase u keyword) && !d.serializesAsComment) ↔
      ∃ d ∈ directives host.body, d.key = lowercase u keyword ∧ d.serializesAsComment = false := by
    simp [List.countP_pos_iff]
  rw [positive]
  refine forall_congr' fun some_ => ?_
  obtain ⟨live, member, liveKey, isLive⟩ := some_
  cases here : firstOf (lowercase u keyword) host.body with
  | none =>
    have none_ := List.find?_eq_none.mp here live member
    simp [liveKey] at none_
  | some d =>
    obtain ⟨before, rest, parts, key, _, _, erased⟩ := firstOf_parts here
    rw [erased]
    have split : directives (before ++ .Directive d :: rest) = directives before ++ d :: directives rest := by
      rw [directives_append]
      rfl
    rw [parts, split, directives_append, List.countP_append, List.countP_append, List.countP_cons]
    simp only [key, decide_true, Bool.true_and, Option.some.injEq, forall_eq']
    cases d.serializesAsComment with
    | false => simp [Nat.add_assoc]
    | true => simp

/-! ## Runs -/

/-- The edits of one host's fields. -/
inductive FieldOp where
  | set (keyword value : List Char)
  | remove (keyword : List Char)
  | enable (keyword : List Char) (index : Nat) (enabled : Bool)

/-- The block that the alias names in the document. -/
def hostOf (doc : SshConfigDoc) (alias_ : List Char) : Option HostBlock :=
  match hostFile doc alias_ with
  | .ok idx => doc.files[idx]?.bind fun file => findHost alias_ file.items
  | .error _ => none

def editHost (doc : SshConfigDoc) (alias_ : List Char) (edit : HostBlock → HostBlock) : SshConfigDoc :=
  match hostFile doc alias_ with
  | .ok idx => doc.modifyItems idx (modifyHost edit alias_)
  | .error _ => doc

/-- One edit; a refused one leaves the document alone. -/
def FieldOp.apply (u : UnicodeTables) (doc : SshConfigDoc) (alias_ : List Char) : FieldOp → SshConfigDoc
  | .set keyword value => editHost doc alias_ fun host => (setHostField u host keyword value).1
  | .remove keyword => editHost doc alias_ fun host => (removeHostField u host keyword).1
  | .enable keyword index enabled =>
    match setOptionEnabled u doc alias_ keyword index enabled with
    | .ok (edited, _) => edited
    | .error _ => doc

/-- The line that takes a value is read with its key. -/
def FieldOp.Fits (u : UnicodeTables) (doc : SshConfigDoc) (alias_ : List Char) : FieldOp → Prop
  | .set keyword value => ∀ host, hostOf doc alias_ = some host → KeyFits u host keyword value
  | _ => True

def runFields (u : UnicodeTables) (doc : SshConfigDoc) (ops : List (List Char × FieldOp)) : SshConfigDoc :=
  ops.foldl (fun doc op => op.2.apply u doc op.1) doc

/-- Every edit of the run fits. -/
def RunFits (u : UnicodeTables) : SshConfigDoc → List (List Char × FieldOp) → Prop
  | _, [] => True
  | doc, op :: rest => op.2.Fits u doc op.1 ∧ RunFits u (op.2.apply u doc op.1) rest

/-- Every Host block of the document is written as lines that are read with their keys. -/
def DocReady (u : UnicodeTables) (doc : SshConfigDoc) : Prop :=
  ∀ file ∈ doc.files, ∀ host : HostBlock, host.toItem ∈ file.items → HostReady u host

theorem findHost_mem {alias_ : List Char} {items : List Item} {host : HostBlock}
    (found : findHost alias_ items = some host) : host.toItem ∈ items := by
  obtain ⟨above, below, rfl, _⟩ := findHost_eq_some found
  simp

theorem DocReady.hostOf {doc : SshConfigDoc} (ready : DocReady u doc) {alias_ : List Char} {host : HostBlock}
    (found : hostOf doc alias_ = some host) : HostReady u host := by
  unfold Config.hostOf at found
  split at found
  · next idx _ =>
    obtain ⟨file, here, found⟩ := Option.bind_eq_some_iff.mp found
    exact ready file (List.mem_of_getElem? here) host (findHost_mem found)
  · cases found

theorem modifyHost_of_none {alias_ : List Char} {items : List Item} (none_ : findHost alias_ items = none)
    (edit : HostBlock → HostBlock) : modifyHost edit alias_ items = items := by
  induction items with
  | nil => rfl
  | cons item rest ih =>
    cases item with
    | Host header patterns body =>
      rw [findHost] at none_
      split at none_
      · cases none_
      · next other => rw [modifyHost, if_neg other, ih none_]
    | _ => exact congrArg (List.cons _) (ih none_)

/-- Editing the block of an alias keeps the document ready when the edited block is. -/
theorem DocReady.modify {doc : SshConfigDoc} (ready : DocReady u doc) {alias_ : List Char} {idx : Nat}
    {edit : HostBlock → HostBlock} (edited : ∀ file, doc.files[idx]? = some file → ∀ host,
      findHost alias_ file.items = some host → HostReady u (edit host)) :
    DocReady u (doc.modifyItems idx (modifyHost edit alias_)) := by
  intro file member host inside
  obtain ⟨place, here⟩ := List.mem_iff_getElem?.mp member
  rw [SshConfigDoc.modifyItems, List.getElem?_modify] at here
  obtain ⟨old, found, same⟩ := Option.map_eq_some_iff.mp here
  have oldReady := ready old (List.mem_of_getElem? found)
  split at same
  · next isIdx =>
    subst isIdx same
    simp only at inside
    cases first : findHost alias_ old.items with
    | none =>
      rw [modifyHost_of_none first] at inside
      exact oldReady host inside
    | some target =>
      obtain ⟨above, below, parts, _, _, modified⟩ := findHost_eq_some first
      rw [modified] at inside
      simp only [List.mem_append, List.mem_cons] at inside
      rcases inside with inside | same | inside
      · exact oldReady host (by simp [parts, inside])
      · have isEdited : host = edit target := by
          have fields := same
          simp only [HostBlock.toItem, Item.Host.injEq] at fields
          obtain ⟨header, patterns, body⟩ := fields
          cases host
          simp_all
        rw [isEdited]
        exact edited old found target first
      · exact oldReady host (by simp [parts, inside])
  · subst same
    exact oldReady host inside

theorem settled_modifyDirective {edit : Directive → Directive} (keeps : ∀ d, Fitting u d → Fitting u (edit d))
    (index : Nat) {body : List Item} (settled : ∀ item ∈ body, Settled u item) :
    ∀ item ∈ modifyDirective edit index body, Settled u item := by
  induction body generalizing index with
  | nil => cases index <;> exact settled
  | cons item rest ih =>
    obtain ⟨first, others⟩ := List.forall_mem_cons.mp settled
    cases item with
    | Directive d =>
      cases index with
      | zero => exact List.forall_mem_cons.mpr ⟨keeps d first, others⟩
      | succ index => exact List.forall_mem_cons.mpr ⟨first, ih index others⟩
    | Host _ _ _ => exact first.elim
    | Match _ _ _ => exact first.elim
    | _ => cases index <;> exact List.forall_mem_cons.mpr ⟨first, ih _ others⟩

theorem DocReady.apply {doc : SshConfigDoc} (ready : DocReady u doc) {alias_ : List Char} {op : FieldOp}
    (fits : op.Fits u doc alias_) : DocReady u (op.apply u doc alias_) := by
  have found {idx : Nat} (owner : hostFile doc alias_ = .ok idx) {file : ConfigFile} (here : doc.files[idx]? = some file)
      {host : HostBlock} (first : findHost alias_ file.items = some host) : Config.hostOf doc alias_ = some host := by
    rw [Config.hostOf, owner]
    simp only [here, Option.bind_some, first]
  cases op with
  | set keyword value =>
    simp only [FieldOp.apply, editHost]
    split
    · next idx owner =>
      refine ready.modify fun file here host first => ?_
      have block := found owner here first
      exact (ready.hostOf block).set (fits host block)
    · exact ready
  | remove keyword =>
    simp only [FieldOp.apply, editHost]
    split
    · next idx owner => exact ready.modify fun file here host first => (ready.hostOf (found owner here first)).removed keyword
    · exact ready
  | enable keyword index enabled =>
    simp only [FieldOp.apply]
    split
    · next edited idx' result =>
      obtain ⟨idx, owner, result⟩ := Result.bind_eq_ok.mp result
      split at result
      · cases result
      · next host block =>
        split at result
        · cases result
        · next d _ =>
          obtain ⟨_, result⟩ := Result.refuse_bind_eq_ok.mp result
          cases result
          refine ready.modify fun file here host first => ?_
          have before := ready.hostOf (found owner here first)
          refine ⟨before.header, before.isHost, before.single, ?_⟩
          exact settled_modifyDirective (fun d fitting => fitting.setEnabled enabled) index before.body
    · exact ready

theorem DocReady.run {doc : SshConfigDoc} (ready : DocReady u doc) {ops : List (List Char × FieldOp)}
    (fits : RunFits u doc ops) : DocReady u (runFields u doc ops) := by
  induction ops generalizing doc with
  | nil => exact ready
  | cons op rest ih => exact ih (ready.apply fits.1) fits.2

theorem docReady_parsed {doc : SshConfigDoc}
    (parsed : ∀ file ∈ doc.files, ∃ text, parseFile u text = (file.items, file.trailingNewline)) : DocReady u doc := by
  intro file member host inside
  obtain ⟨text, same⟩ := parsed file member
  have items : (parseFile u text).1 = file.items := by rw [same]
  exact hostReady_parsed (items ▸ inside)

/-- In a run of edits that fit, a field that fits is set and read, and a line is removed exactly when the first
line of its key is live or none is. -/
theorem field_edits_take_effect (u : UnicodeTables) (doc : SshConfigDoc)
    (parsed : ∀ file ∈ doc.files, ∃ text, parseFile u text = (file.items, file.trailingNewline))
    (ops : List (List Char × FieldOp)) (fits : RunFits u doc ops) (alias_ : List Char) (host : HostBlock)
    (found : hostOf (runFields u doc ops) alias_ = some host) :
    (∀ keyword value, ParsesBack u keyword value → SetFits u host keyword value → SetsField u host keyword value) ∧
      ∀ keyword, RemovesLine u host keyword ↔ RemoveFits u host keyword := by
  have ready := ((docReady_parsed parsed).run fits).hostOf found
  exact ⟨fun keyword value back setFits => ready.sets back setFits, ready.removes_iff⟩

namespace Sample

open Sync.HostsFile.Sample (asciiTables)

def readAs (path : String) (text : List Char) : SshConfigDoc :=
  ⟨[⟨path, (parseFile asciiTables text).1, (parseFile asciiTables text).2, ""⟩]⟩

def onePort : SshConfigDoc := readAs "config" "Host web\n  Port 22\n".toList

def twoPorts : SshConfigDoc := readAs "config" "Host web\n  Port 22\n  Port 23\n".toList

/-- The block after an edit, or an empty one. -/
def blockAfter (doc : SshConfigDoc) (ops : List (List Char × FieldOp)) : HostBlock :=
  (hostOf (runFields asciiTables doc ops) "web".toList).getD ⟨.new asciiTables [] [] [], [], []⟩

/-- The port changes while its line is switched off. -/
def newPort : List (List Char × FieldOp) :=
  [("web".toList, .enable "Port".toList 0 false), ("web".toList, .set "Port".toList "24".toList),
    ("web".toList, .enable "Port".toList 0 true)]

/-- The first of the two ports is switched off. -/
def firstOff : List (List Char × FieldOp) := [("web".toList, .enable "Port".toList 0 false)]

theorem port_parses_back : ParsesBack asciiTables "Port".toList "2222".toList :=
  ⟨by decide, (match classifyLine asciiTables "Port 2222".toList with
    | .Directive d => d
    | _ => .new asciiTables [] [] []), by decide, by decide, by decide⟩

end Sample

open Sync.HostsFile.Sample (asciiTables)

theorem Sample.port_fits {host : HostBlock} (live : (firstOf (lowercase asciiTables "Port".toList) host.body).all
    (fun d => !d.serializesAsComment && decide (d.separator.text ≠ []) && d.inlineComment.isNone) = true) :
    SetFits asciiTables host "Port".toList "2222".toList ∧ RemoveFits asciiTables host "Port".toList := by
  have first (d : Directive) (here : firstOf (lowercase asciiTables "Port".toList) host.body = some d) :
      d.serializesAsComment = false ∧ d.separator.text ≠ [] ∧ d.inlineComment = none := by
    rw [here, Option.all_some] at live
    simpa [and_assoc] using live
  refine ⟨⟨by decide, by decide, fun d here => ?_⟩, fun _ d here => (first d here).1⟩
  obtain ⟨isLive, separator, noComment⟩ := first d here
  exact ⟨isLive, fun none_ => absurd none_ separator, fun comment => absurd noComment comment⟩

theorem Sample.hostOf_blockAfter {doc : SshConfigDoc} {ops : List (List Char × FieldOp)}
    (found : (hostOf (runFields asciiTables doc ops) "web".toList).isSome = true) :
    hostOf (runFields asciiTables doc ops) "web".toList = some (Sample.blockAfter doc ops) := by
  obtain ⟨host, here⟩ := Option.isSome_iff_exists.mp found
  rw [Sample.blockAfter, here, Option.getD_some]

theorem port_edits_take_effect :
    SetsField asciiTables (Sample.blockAfter Sample.onePort Sample.newPort) "Port".toList "2222".toList ∧
      RemovesLine asciiTables (Sample.blockAfter Sample.onePort Sample.newPort) "Port".toList := by
  have fits : RunFits asciiTables Sample.onePort Sample.newPort := by
    refine ⟨trivial, fun host found => ?_, trivial, trivial⟩
    have here : host = Sample.blockAfter Sample.onePort (Sample.newPort.take 1) := by
      have off : hostOf (runFields asciiTables Sample.onePort (Sample.newPort.take 1)) "web".toList = some host := found
      rw [Sample.blockAfter, off, Option.getD_some]
    have separated : (firstOf (lowercase asciiTables "Port".toList) host.body).any
        (fun d => decide (d.separator.text ≠ [])) = true := by
      rw [here]
      decide +kernel
    unfold KeyFits
    split
    · next d first =>
      rw [first, Option.any_some, decide_eq_true_eq] at separated
      exact fun none_ => absurd none_ separated
    · next none_ =>
      rw [none_] at separated
      cases separated
  have parsed : ∀ file ∈ Sample.onePort.files,
      ∃ text, parseFile asciiTables text = (file.items, file.trailingNewline) := by
    intro file member
    exact ⟨"Host web\n  Port 22\n".toList, by rw [List.mem_singleton.mp member]⟩
  obtain ⟨sets, removes⟩ := field_edits_take_effect asciiTables Sample.onePort parsed Sample.newPort fits
    "web".toList _ (Sample.hostOf_blockAfter (by decide +kernel))
  obtain ⟨setFits, removeFits⟩ := @Sample.port_fits (Sample.blockAfter Sample.onePort Sample.newPort) (by decide +kernel)
  exact ⟨sets _ _ Sample.port_parses_back setFits, (removes _).mpr removeFits⟩

/-- A line that was switched off takes the new value for itself and is the one that is removed, while ssh goes on
reading the line below it. -/
theorem disabled_line_takes_the_edit :
    let host := Sample.blockAfter Sample.twoPorts Sample.firstOff
    hostOf (runFields asciiTables Sample.twoPorts Sample.firstOff) "web".toList = some host ∧
      ParsesBack asciiTables "Port".toList "2222".toList ∧
      ¬ SetsField asciiTables host "Port".toList "2222".toList ∧ ¬ RemovesLine asciiTables host "Port".toList := by
  refine ⟨?_, Sample.port_parses_back, ?_, ?_⟩
  · exact Sample.hostOf_blockAfter (by decide +kernel)
  · intro sets
    obtain ⟨fields, reads, value⟩ := sets.2.2 true
    have read : rereadFields asciiTables (setHostField asciiTables
        (Sample.blockAfter Sample.twoPorts Sample.firstOff) "Port".toList "2222".toList).1 true =
          some [("port".toList, "23".toList)] := by decide +kernel
    rw [read] at reads
    cases reads
    revert value
    decide
  · intro removes
    obtain ⟨before, after, readBefore, readAfter, counted⟩ := removes true
    have readFirst : rereadFields asciiTables (Sample.blockAfter Sample.twoPorts Sample.firstOff) true =
        some [("port".toList, "23".toList)] := by decide +kernel
    have readLast : rereadFields asciiTables (removeHostField asciiTables
        (Sample.blockAfter Sample.twoPorts Sample.firstOff) "Port".toList).1 true =
          some [("port".toList, "23".toList)] := by decide +kernel
    rw [readFirst] at readBefore
    rw [readLast] at readAfter
    cases readBefore
    cases readAfter
    revert counted
    decide

end Sshelter.Config
