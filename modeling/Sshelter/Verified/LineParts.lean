import Sshelter.Verified.EditedText
import Sshelter.Verified.MarkedLines

/-! # The parts of a line, read back

A directive is kept as its parts and written as them.  `WellLaid` says what the lexer makes of
a line; parts that are laid out like this are read back with the same keyword and value.  For the
keyword alone the value does not matter: `Keyed`.
-/

namespace Sshelter.Config

open Text Sync.HostsFile

variable {u : UnicodeTables}

/-! ## Separators -/

/-- A separator followed by more text: the text may go on with the separator. -/
theorem takeSeparator_through {sawEq ends : Bool} {sep : List Char} (whole : takeSeparator sawEq sep = (sep, ends, []))
    (tail : List Char) : takeSeparator sawEq (sep ++ tail) =
      (sep ++ (takeSeparator ends tail).1, (takeSeparator ends tail).2.1, (takeSeparator ends tail).2.2) := by
  induction sep generalizing sawEq with
  | nil =>
    obtain ⟨_, rfl, _⟩ := Prod.mk.inj whole |>.imp id Prod.mk.inj
    rfl
  | cons c rest ih =>
    unfold takeSeparator at whole
    rw [List.cons_append, takeSeparator]
    by_cases equals : c = '=' ∧ sawEq = false
    · rw [if_pos equals] at whole
      rw [if_pos equals]
      obtain ⟨first, second⟩ := Prod.mk.inj whole
      obtain ⟨second, third⟩ := Prod.mk.inj second
      have inner : takeSeparator true rest = (rest, ends, []) :=
        Prod.ext (List.cons.inj first).2 (Prod.ext second third)
      rw [ih inner]
      rfl
    · rw [if_neg equals] at whole
      rw [if_neg equals]
      by_cases space : isWhitespace c = true
      · rw [if_pos space] at whole
        rw [if_pos space]
        obtain ⟨first, second⟩ := Prod.mk.inj whole
        obtain ⟨second, third⟩ := Prod.mk.inj second
        have inner : takeSeparator sawEq rest = (rest, ends, []) :=
          Prod.ext (List.cons.inj first).2 (Prod.ext second third)
        rw [ih inner]
        rfl
      · rw [if_neg space] at whole
        cases (Prod.mk.inj whole).1

/-- What was taken is a separator of its own. -/
theorem takeSeparator_self (sawEq : Bool) (s : List Char) :
    takeSeparator sawEq (takeSeparator sawEq s).1 = ((takeSeparator sawEq s).1, (takeSeparator sawEq s).2.1, []) := by
  induction s generalizing sawEq with
  | nil => rfl
  | cons c rest ih =>
    rw [takeSeparator]
    by_cases equals : c = '=' ∧ sawEq = false
    · rw [if_pos equals]
      simp only [takeSeparator, if_pos equals, ih true]
    · rw [if_neg equals]
      by_cases space : isWhitespace c = true
      · rw [if_pos space]
        simp only [takeSeparator, if_neg equals, if_pos space, ih sawEq]
      · rw [if_neg space]
        rfl

theorem takeSeparator_whitespace (sawEq : Bool) {spaces tail : List Char} (all : ∀ c ∈ spaces, isWhitespace c = true) :
    takeSeparator sawEq (spaces ++ tail) =
      (spaces ++ (takeSeparator sawEq tail).1, (takeSeparator sawEq tail).2.1, (takeSeparator sawEq tail).2.2) := by
  apply takeSeparator_through
  induction spaces with
  | nil => rfl
  | cons c rest ih =>
    have space := all c List.mem_cons_self
    have other : c ≠ '=' := by
      rintro rfl
      cases space
    simp only [takeSeparator, other, false_and, if_false, space, if_true,
      ih fun c member => all c (List.mem_cons_of_mem _ member)]

/-- Text that cannot go on with the separator. -/
theorem takeSeparator_stop {sawEq : Bool} {c : Char} {rest : List Char} (visible : isWhitespace c = false)
    (equals : c = '=' → sawEq = true) : takeSeparator sawEq (c :: rest) = ([], sawEq, c :: rest) := by
  rw [takeSeparator, if_neg, if_neg (by simp [visible])]
  rintro ⟨here, unseen⟩
  rw [equals here] at unseen
  cases unseen

theorem takeSeparator_after_equals {sawEq : Bool} {s : List Char} (head : (takeSeparator sawEq s).2.2.head? = some '=') :
    (takeSeparator sawEq s).2.1 = true := by
  induction s generalizing sawEq with
  | nil => cases head
  | cons c rest ih =>
    rw [takeSeparator] at head ⊢
    split at head
    · next equals =>
      rw [if_pos equals]
      exact ih head
    · next equals =>
      rw [if_neg equals]
      split at head
      · next space =>
        rw [if_pos space]
        exact ih head
      · next visible =>
        rw [if_neg visible]
        obtain rfl : c = '=' := by simpa using head
        simpa using equals

/-! ## Comments -/

/-- Whether a text leaves double quotes open. -/
def leavesQuote : (inDquote : Bool) → List Char → Bool
  | inDquote, [] => inDquote
  | inDquote, c :: rest => leavesQuote (if c = '"' then !inDquote else inDquote) rest

theorem leavesQuote_append (inDquote : Bool) (s t : List Char) :
    leavesQuote inDquote (s ++ t) = leavesQuote (leavesQuote inDquote s) t := by
  induction s generalizing inDquote with
  | nil => rfl
  | cons c rest ih => exact ih _

theorem leavesQuote_whitespace (inDquote : Bool) {spaces : List Char} (all : ∀ c ∈ spaces, isWhitespace c = true) :
    leavesQuote inDquote spaces = inDquote := by
  induction spaces generalizing inDquote with
  | nil => rfl
  | cons c rest ih =>
    have other : c ≠ '"' := by
      rintro rfl
      cases all '"' List.mem_cons_self
    rw [leavesQuote, if_neg other]
    exact ih inDquote fun c member => all c (List.mem_cons_of_mem _ member)

theorem splitAtComment_through {inDquote : Bool} {s : List Char} (plain : (splitAtComment inDquote s).2 = none)
    (t : List Char) : splitAtComment inDquote (s ++ t) =
      (s ++ (splitAtComment (leavesQuote inDquote s) t).1, (splitAtComment (leavesQuote inDquote s) t).2) := by
  induction s generalizing inDquote with
  | nil => rfl
  | cons c rest ih =>
    rw [splitAtComment] at plain
    rw [List.cons_append, splitAtComment]
    split at plain
    · cases plain
    · next other =>
      rw [if_neg other, ih plain]
      rfl

theorem splitAtComment_none {inDquote : Bool} {s : List Char} (plain : (splitAtComment inDquote s).2 = none) :
    splitAtComment inDquote s = (s, none) := by
  have whole := splitAtComment_append inDquote s
  rw [plain, Option.getD_none, List.append_nil] at whole
  exact Prod.ext whole plain

theorem splitAtComment_prefix {inDquote : Bool} {s t : List Char} (plain : (splitAtComment inDquote (s ++ t)).2 = none) :
    (splitAtComment inDquote s).2 = none := by
  induction s generalizing inDquote with
  | nil => rfl
  | cons c rest ih =>
    rw [List.cons_append, splitAtComment] at plain
    rw [splitAtComment]
    split at plain
    · cases plain
    · next other =>
      rw [if_neg other]
      exact ih plain

/-- The text before a comment holds none, and leaves no quote open when there is one. -/
theorem splitAtComment_before (inDquote : Bool) (s : List Char) :
    (splitAtComment inDquote (splitAtComment inDquote s).1).2 = none ∧
      ∀ comment, (splitAtComment inDquote s).2 = some comment →
        leavesQuote inDquote (splitAtComment inDquote s).1 = false ∧ comment.head? = some '#' := by
  induction s generalizing inDquote with
  | nil => exact ⟨rfl, fun comment found => by cases found⟩
  | cons c rest ih =>
    rw [splitAtComment]
    split
    · next hash =>
      refine ⟨rfl, fun comment found => ?_⟩
      cases found
      exact ⟨hash.2, by rw [hash.1, List.head?_cons]⟩
    · next other =>
      obtain ⟨plain, found⟩ := ih (if c = '"' then !inDquote else inDquote)
      refine ⟨?_, found⟩
      simp only [splitAtComment, if_neg other]
      exact plain

theorem splitAtComment_whitespace (inDquote : Bool) {spaces : List Char} (all : ∀ c ∈ spaces, isWhitespace c = true) :
    (splitAtComment inDquote spaces).2 = none := by
  induction spaces generalizing inDquote with
  | nil => rfl
  | cons c rest ih =>
    have other : ¬ (c = '#' ∧ inDquote = false) := by
      rintro ⟨rfl, _⟩
      cases all '#' List.mem_cons_self
    rw [splitAtComment, if_neg other]
    exact ih _ fun c member => all c (List.mem_cons_of_mem _ member)

theorem trimEnd_append_whitespace (s : List Char) {spaces : List Char} (all : ∀ c ∈ spaces, isWhitespace c = true) :
    trimEnd (s ++ spaces) = trimEnd s := by
  induction spaces using List.reverseRecOn with
  | nil => rw [List.append_nil]
  | append_singleton spaces c ih =>
    have space := all c (by simp)
    rw [← List.append_assoc, trimEnd, List.rdropWhile_concat_pos _ _ _ space]
    exact ih fun d member => all d (by simp [member])

/-! ## A line laid out in parts -/

/-- What the lexer says of the end of a line: a value with no whitespace around it and no comment in it, and
after it whitespace or a comment. -/
structure WellEnded (value trailing : List Char) (comment : Option (List Char)) : Prop where
  trimmed : trimEnd value = value
  visible : ∀ c, value.head? = some c → isWhitespace c = false
  plain : (splitAtComment false value).2 = none
  spaces : ∀ c ∈ trailing, isWhitespace c = true
  remark : ∀ text, comment = some text → trailing = [] ∧ leavesQuote false value = false ∧
    ∃ spaces tail, (∀ c ∈ spaces, isWhitespace c = true) ∧ text = spaces ++ '#' :: tail

theorem splitValueComment_wellEnded {value trailing : List Char} {comment : Option (List Char)}
    (ended : WellEnded value trailing comment) :
    splitValueComment (value ++ trailing ++ comment.getD []) = (value, trailing, comment) := by
  have spacesAfter (spaces : List Char) (all : ∀ c ∈ spaces, isWhitespace c = true) :
      (value ++ spaces).rtakeWhile isWhitespace = spaces := by
    have parts := List.rdropWhile_append_rtakeWhile (p := isWhitespace) (l := value ++ spaces)
    have front : (value ++ spaces).rdropWhile isWhitespace = value :=
      (trimEnd_append_whitespace value all).trans ended.trimmed
    rw [front] at parts
    exact List.append_cancel_left parts
  cases comment with
  | none =>
    have plain : (splitAtComment false (value ++ trailing)).2 = none := by
      rw [splitAtComment_through ended.plain]
      exact splitAtComment_whitespace _ ended.spaces
    rw [Option.getD_none, List.append_nil, splitValueComment, splitAtComment_none plain]
    simp only [trimEnd_append_whitespace value ended.spaces, ended.trimmed, spacesAfter trailing ended.spaces]
  | some text =>
    obtain ⟨rfl, closed, spaces, tail, all, rfl⟩ := ended.remark text rfl
    have before : (splitAtComment false (value ++ spaces)).2 = none := by
      rw [splitAtComment_through ended.plain]
      exact splitAtComment_whitespace _ all
    have still : leavesQuote false (value ++ spaces) = false := by
      rw [leavesQuote_append, closed, leavesQuote_whitespace false all]
    have split : splitAtComment false (value ++ [] ++ (spaces ++ '#' :: tail)) =
        (value ++ spaces, some ('#' :: tail)) := by
      rw [List.append_nil, ← List.append_assoc, splitAtComment_through before, still, splitAtComment,
        if_pos ⟨rfl, rfl⟩, List.append_nil]
    rw [Option.getD_some, splitValueComment, split]
    simp only [trimEnd_append_whitespace value all, ended.trimmed, spacesAfter spaces all]

/-- The value of a text after a separator that may go on in it. -/
theorem value_after_separator {value trailing : List Char} {comment : Option (List Char)}
    (ended : WellEnded value trailing comment) {sawEq : Bool} (equals : value.head? = some '=' → sawEq = true) :
    (splitValueComment (takeSeparator sawEq (value ++ trailing ++ comment.getD [])).2.2).1 = value := by
  cases value with
  | cons c rest =>
    have stop : takeSeparator sawEq (c :: rest ++ trailing ++ comment.getD []) =
        ([], sawEq, c :: rest ++ trailing ++ comment.getD []) :=
      takeSeparator_stop (ended.visible c rfl) fun here => equals (by rw [here]; rfl)
    rw [stop, splitValueComment_wellEnded ended]
  | nil =>
    rw [List.nil_append]
    cases comment with
    | none =>
      rw [Option.getD_none, takeSeparator_whitespace sawEq ended.spaces]
      rfl
    | some text =>
      obtain ⟨rfl, _, spaces, tail, all, rfl⟩ := ended.remark text rfl
      rw [Option.getD_some, List.nil_append, takeSeparator_whitespace sawEq all,
        takeSeparator_stop (c := '#') (by decide) (by simp)]
      rfl

/-- A directive whose parts up to the value are laid out as in a line. -/
structure Keyed (u : UnicodeTables) (d : Directive) : Prop where
  key : d.key = lowercase u d.keyword
  indent : ∀ c ∈ d.indent, isWhitespace c = true
  keyword : ∀ c ∈ d.keyword, isWhitespace c = false ∧ c ≠ '='
  begins : ∃ c rest, d.keyword ++ d.separator.text = c :: rest ∧ isWhitespace c = false ∧ c ≠ '#'
  separator : ∃ sawEq, takeSeparator false d.separator.text = (d.separator.text, sawEq, [])
  separated : d.separator.text = [] → d.rest = []

/-- A directive whose parts are laid out as in a line. -/
structure WellLaid (u : UnicodeTables) (d : Directive) : Prop extends Keyed u d where
  equals : d.value.head? = some '=' → (takeSeparator false d.separator.text).2.1 = true
  ended : WellEnded d.value d.trailingWs d.inlineComment

/-- The line that the parts make up. -/
def Directive.parts (d : Directive) : List Char := d.indent ++ (d.keyword ++ (d.separator.text ++ d.rest))

theorem takeSeparator_head_ends {sep : List Char} {sawEq : Bool} (whole : takeSeparator false sep = (sep, sawEq, []))
    {c : Char} {rest : List Char} (starts : sep = c :: rest) : isWhitespace c = true ∨ c = '=' := by
  have member : c ∈ (takeSeparator false sep).1 := by
    rw [whole, starts]
    exact List.mem_cons_self
  exact takeSeparator_sep member

/-- The keyword is read back, and the value from the text after the separator. -/
theorem classifyLine_keyed {d : Directive} (laid : Keyed u d) : ∃ read, classifyLine u d.parts = .Directive read ∧
    read.keyword = d.keyword ∧ read.key = d.key ∧
    read.value = (splitValueComment (takeSeparator (takeSeparator false d.separator.text).2.1 d.rest).2.2).1 := by
  obtain ⟨first, others, starts, visible, noComment⟩ := laid.begins
  obtain ⟨sawEq, whole⟩ := laid.separator
  have body : d.keyword ++ (d.separator.text ++ d.rest) = first :: (others ++ d.rest) := by
    rw [← List.append_assoc, starts, List.cons_append]
  have trimmed : d.parts.dropWhile isWhitespace = d.keyword ++ (d.separator.text ++ d.rest) := by
    rw [Directive.parts]
    refine dropWhile_append_stop laid.indent fun c head => ?_
    rw [body] at head
    cases head
    exact visible
  have notBlank : d.parts.all isWhitespace = false := by
    rw [Bool.eq_false_iff]
    intro all
    have here := List.all_eq_true.mp all first (by rw [Directive.parts, body]; simp)
    rw [visible] at here
    cases here
  -- the keyword ends where the separator begins
  have ends : ∀ c, (d.separator.text ++ d.rest).head? = some c → (!(isWhitespace c || decide (c = '='))) = false := by
    intro c head
    cases sep : d.separator.text with
    | nil =>
      rw [sep, laid.separated sep] at head
      cases head
    | cons s more =>
      rw [sep] at head
      cases head
      rcases takeSeparator_head_ends whole sep with space | equal
      · simp [space]
      · simp [equal]
  have inKeyword : ∀ c ∈ d.keyword, (!(isWhitespace c || decide (c = '='))) = true := by
    intro c member
    obtain ⟨notSpace, notEquals⟩ := laid.keyword c member
    simp [notSpace, notEquals]
  unfold classifyLine
  rw [if_neg (by simp [notBlank])]
  simp only [trimmed]
  rw [if_neg (by rw [body]; simpa using noComment)]
  refine ⟨_, rfl, ?_, ?_, ?_⟩
  · exact takeWhile_append_stop inKeyword ends
  · rw [laid.key]
    exact congrArg (lowercase u) (takeWhile_append_stop inKeyword ends)
  · simp only [dropWhile_append_stop inKeyword ends, takeSeparator_through whole, whole]

/-- Well laid parts are read back. -/
theorem classifyLine_parts {d : Directive} (laid : WellLaid u d) : ∃ read, classifyLine u d.parts = .Directive read ∧
    read.keyword = d.keyword ∧ read.key = d.key ∧ read.value = d.value := by
  obtain ⟨read, classified, keyword, key, value⟩ := classifyLine_keyed laid.toKeyed
  refine ⟨read, classified, keyword, key, ?_⟩
  rw [value, Directive.rest]
  exact value_after_separator laid.ended laid.equals

/-! ## Lines of a file -/

/-- The value part of a line ends as the lexer says. -/
theorem splitValueComment_ended {s : List Char} (visible : ∀ c, s.head? = some c → isWhitespace c = false) :
    WellEnded (splitValueComment s).1 (splitValueComment s).2.1 (splitValueComment s).2.2 := by
  obtain ⟨plain, found⟩ := splitAtComment_before false s
  have whole := splitAtComment_append false s
  have spaces := @List.mem_rtakeWhile_imp Char isWhitespace (splitAtComment false s).1
  have parts := List.rdropWhile_append_rtakeWhile (p := isWhitespace) (l := (splitAtComment false s).1)
  have trimmed : trimEnd (trimEnd (splitAtComment false s).1) = trimEnd (splitAtComment false s).1 :=
    List.rdropWhile_idempotent _ _
  have front : ∀ c, (trimEnd (splitAtComment false s).1).head? = some c → isWhitespace c = false := by
    intro c head
    apply visible
    rw [← whole, ← parts]
    cases value : List.rdropWhile isWhitespace (splitAtComment false s).1 with
    | nil =>
      rw [trimEnd, value] at head
      cases head
    | cons d rest =>
      rw [trimEnd, value] at head
      exact head
  have valuePlain : (splitAtComment false (trimEnd (splitAtComment false s).1)).2 = none := by
    rw [← parts] at plain
    exact splitAtComment_prefix plain
  unfold splitValueComment
  cases split : splitAtComment false s with
  | mk before comment =>
    rw [split] at parts trimmed front valuePlain spaces found
    cases comment with
    | none => exact ⟨trimmed, front, valuePlain, fun c member => spaces member, fun text here => by cases here⟩
    | some text =>
      obtain ⟨closed, hash⟩ := found text rfl
      refine ⟨trimmed, front, valuePlain, by simp, fun other here => ⟨rfl, ?_, ?_⟩⟩
      · rw [← parts, leavesQuote_append, leavesQuote_whitespace _ fun c member => spaces member] at closed
        exact closed
      · cases here
        cases text with
        | nil => cases hash
        | cons c tail =>
          cases hash
          exact ⟨_, tail, fun c member => spaces member, rfl⟩

theorem classifyLine_wellLaid {line : List Char} {d : Directive} (classified : classifyLine u line = .Directive d) :
    WellLaid u d ∧ d.parts = line := by
  have laid := classifyLine_laid classified
  refine ⟨?_, laid.line_eq.symm⟩
  unfold classifyLine at classified
  split at classified
  · cases classified
  dsimp only at classified
  split at classified
  · cases classified
  next notBlank noComment =>
    set trimmed := line.dropWhile isWhitespace with trimmed_eq
    set after := trimmed.dropWhile fun c => !(isWhitespace c || decide (c = '=')) with after_eq
    have visible := List.head?_dropWhile_not isWhitespace line
    have separatorText : ∀ (sawEq : Bool) (sep : List Char),
        (if sawEq = true then Separator.Equals sep else Separator.Space sep).text = sep := by
      intro sawEq sep
      cases sawEq <;> rfl
    cases classified
    -- the value begins where the separator ends, so with no blank
    have valueVisible : ∀ c, (takeSeparator false after).2.2.head? = some c → isWhitespace c = false :=
      fun c head => takeSeparator_after head
    have ended := splitValueComment_ended valueVisible
    have separator : takeSeparator false (takeSeparator false after).1 =
        ((takeSeparator false after).1, (takeSeparator false after).2.1, []) := takeSeparator_self false after
    refine ⟨⟨rfl, laid.indent, laid.keyword, ?_, ⟨(takeSeparator false after).2.1, ?_⟩, ?_⟩, fun head => ?_, ended⟩
    · -- the text after the indent begins with the keyword, or with an `=` when there is none
      have rest : trimmed.takeWhile (fun c => !(isWhitespace c || decide (c = '='))) ++
          ((takeSeparator false after).1 ++ (takeSeparator false after).2.2) = trimmed := by
        rw [takeSeparator_append, after_eq, List.takeWhile_append_dropWhile]
      cases found : trimmed with
      | nil =>
        exfalso
        apply notBlank
        rw [List.all_eq_true]
        intro c member
        have dropped := List.dropWhile_eq_nil_iff.mp (trimmed_eq.symm.trans found)
        exact dropped c member
      | cons c others =>
        have seen : isWhitespace c = false := by
          rw [← trimmed_eq, found] at visible
          simpa using visible
        have notHash : c ≠ '#' := by
          rintro rfl
          rw [found] at noComment
          exact noComment rfl
        simp only [separatorText]
        rw [found] at rest
        cases word : (c :: others).takeWhile (fun c => !(isWhitespace c || decide (c = '='))) with
        | cons first more =>
          rw [word] at rest
          obtain ⟨rfl, _⟩ := List.cons.inj rest
          exact ⟨first, _, rfl, seen, notHash⟩
        | nil =>
          rw [word, List.nil_append] at rest
          cases sep : (takeSeparator false after).1 with
          | nil =>
            exfalso
            have ends : isWhitespace c = true ∨ c = '=' := by
              by_contra neither
              rw [not_or] at neither
              simp [neither.1, neither.2] at word
            have afterAll : after = c :: others := by
              rw [after_eq, found, List.dropWhile_cons, if_neg]
              rcases ends with space | equal
              · simp [space]
              · simp [equal]
            have member : c ∈ (takeSeparator false (c :: others)).1 := takeSeparator_head ends
            rw [← afterAll, sep] at member
            cases member
          | cons first more =>
            rw [sep] at rest
            obtain ⟨rfl, _⟩ := List.cons.inj rest
            exact ⟨first, more, rfl, seen, notHash⟩
    · simp only [separatorText]
      exact separator
    · intro none_
      have heads := laid.separator_head
      cases rest : Directive.rest _ with
      | nil => rfl
      | cons c others =>
        have member := heads c (by rw [none_, rest]; rfl)
        rw [none_] at member
        cases member
    · simp only [separatorText, separator]
      apply takeSeparator_after_equals
      have joined := splitValueComment_append (takeSeparator false after).2.2
      rw [← joined]
      simp only at head
      cases value : (splitValueComment (takeSeparator false after).2.2).1 with
      | nil =>
        rw [value] at head
        cases head
      | cons c others =>
        rw [value] at head
        exact head

end Sshelter.Config
