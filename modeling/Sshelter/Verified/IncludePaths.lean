import Sshelter.Verified.QuotedArguments
import Sshelter.Verified.IncludeLines
import Sshelter.Verified.HostText

/-! # The paths that the other lines list

A line loses the app's tokens word by word and is put together with single blanks.  The line
that is written then lists, as ssh reads it, the same other paths when each of them, as it is
written, is words with single blanks between them, none of which is a token of the app, and when
what stands behind the value is apart from it.
-/

namespace Sshelter.Sync.IncludeList

open Text Config
open OpenSsh (Argument ClosedBefore ReadsNothing arguments argvSplit isDelimiterSpace settingText)

variable {u : UnicodeTables}

/-! ## Lines as ssh reads them -/

/-- The paths ssh reads from a line of the file, when it is an Include. -/
def includePaths (line : List Char) : Option (List (List Char)) :=
  match OpenSsh.readLine line with
  | .setting keyword paths => if asciiLowercase keyword = "include".toList then paths else none
  | .nothing => none

/-- The same paths as they are written, and the comment behind them. -/
def includeArguments (line : List Char) : Option (List Argument × List Char) :=
  (settingText line).bind fun (keyword, text) =>
    if asciiLowercase keyword = "include".toList then arguments text else none

theorem includePaths_eq (line : List Char) :
    includePaths line = (includeArguments line).map fun found => found.1.map Argument.value := by
  rw [includePaths, OpenSsh.readLine_settingText, includeArguments]
  cases settingText line with
  | none => rfl
  | some setting =>
    obtain ⟨keyword, text⟩ := setting
    simp only [Option.bind_some, OpenSsh.argvSplit_arguments]
    split <;> rfl

/-- What stands behind the value of a line, without the end of the line. -/
def behindValue (d : Directive) : List Char := (d.trailingWs ++ d.inlineComment.getD []).rdropWhile OpenSsh.isLineEnd

/-! ## Lines -/

/-- An argument that is a token of the app as it stands. -/
def isAppArgument (a : Argument) : Bool := isOurIncludeToken a.raw && !a.raw.any isWhitespace

def otherArguments (args : List Argument) : List Argument := args.filter fun a => !isAppArgument a

/-- The words of a text that are no tokens of the app. -/
def otherWords (text : List Char) : List (List Char) := (splitWhitespace text).filter fun t => !isOurIncludeToken t

/-- A line with the value behind its keyword for ssh as well: the separator ends in front of the words that stay, and
what stands behind the value belongs to no argument. -/
structure LaidOut (d : Directive) : Prop where
  indent : ∀ c ∈ d.indent, isDelimiterSpace c = true
  keyword : asciiLowercase d.keyword = "include".toList
  separator : (∃ before after, d.separator.text = before ++ '=' :: after ∧ ∀ c ∈ before ++ after, isDelimiterSpace c = true) ∨
    (d.separator.text ≠ [] ∧ (∀ c ∈ d.separator.text, isDelimiterSpace c = true) ∧
      (joinSpace (otherWords d.value)).head? ≠ some '=')
  behind : ReadsNothing (behindValue d)

/-- The line can lose the app's tokens: ssh reads the arguments of its value, and put together anew every other one is
written as it is. -/
def CanLose (d : Directive) (args : List Argument) : Prop :=
  LaidOut d ∧ ∃ comment, arguments d.value = some (args, comment) ∧
    (∀ a ∈ otherArguments args, joinSpace (otherWords a.raw) = a.raw) ∧
      ClosedBefore (!comment.isEmpty || !(behindValue d).isEmpty) (otherArguments args)

/-- A line that ssh can read can lose the app's tokens, or neither the app nor ssh finds one in it. -/
def LineFits (d : Directive) : Prop :=
  ∀ args comment, includeArguments (renderDirective d) = some (args, comment) →
    if (splitWhitespace d.value).any isOurIncludeToken = true then CanLose d args else otherArguments args = args

/-- What is left of an item: where ssh could read an Include, it reads its other paths in order. -/
def Reduced (item : Item) (left : Option Item) : Prop :=
  match enabledInclude item with
  | none => left = some item
  | some d => ∀ args comment, includeArguments (renderDirective d) = some (args, comment) →
    match left with
    | none => otherArguments args = []
    | some line => ∃ d', enabledInclude line = some d' ∧
        includePaths (renderDirective d') = some ((otherArguments args).map Argument.value)

theorem intercalate_append {c : Char} {front back : List (List Char)} (some_ : front ≠ []) (more : back ≠ []) :
    [c].intercalate (front ++ back) = [c].intercalate front ++ c :: [c].intercalate back := by
  induction front with
  | nil => exact absurd rfl some_
  | cons word rest ih =>
    cases rest with
    | nil =>
      obtain ⟨next, others, rfl⟩ := List.exists_cons_of_ne_nil more
      rw [List.singleton_append, List.intercalate_cons_cons, List.intercalate_singleton, List.append_assoc]
      rfl
    | cons next others =>
      rw [List.cons_append, List.cons_append, List.intercalate_cons_cons, ← List.cons_append, ih (by simp),
        List.intercalate_cons_cons, List.append_assoc, List.append_assoc, List.append_assoc]

theorem otherWords_ne_nil {a : Argument} (reads : a.Reads) (same : joinSpace (otherWords a.raw) = a.raw) :
    otherWords a.raw ≠ [] := by
  intro none_
  rw [none_] at same
  obtain ⟨c, more, raw, _⟩ := reads.starts
  rw [raw] at same
  cases same

theorem otherWords_app {a : Argument} (app : isAppArgument a = true) : otherWords a.raw = [] := by
  simp only [isAppArgument, Bool.and_eq_true, Bool.not_eq_true', List.any_eq_false, Bool.not_eq_true] at app
  obtain ⟨ours, letters⟩ := app
  have some_ : a.raw ≠ [] := by
    intro none_
    rw [none_] at ours
    cases ours
  rw [otherWords, splitWhitespace, (IsWord.mk some_ letters).words]
  simp [ours]

theorem flatMap_otherWords {args : List Argument} (reads : ∀ a ∈ args, a.Reads)
    (same : ∀ a ∈ otherArguments args, joinSpace (otherWords a.raw) = a.raw) :
    args.flatMap (fun a => otherWords a.raw) = [] ↔ otherArguments args = [] := by
  rw [List.flatMap_eq_nil_iff, otherArguments, List.filter_eq_nil_iff]
  refine forall₂_congr fun a member => ⟨fun none_ => ?_, fun app => otherWords_app (by simpa using app)⟩
  intro other
  exact otherWords_ne_nil (reads a member) (same a (List.mem_filter.mpr ⟨member, other⟩)) none_

/-- The words of all arguments but the app's are their texts. -/
theorem join_arguments {args : List Argument} (reads : ∀ a ∈ args, a.Reads)
    (same : ∀ a ∈ otherArguments args, joinSpace (otherWords a.raw) = a.raw) (tail : List (List Char)) :
    joinSpace (args.flatMap (fun a => otherWords a.raw) ++ tail) =
      joinSpace ((otherArguments args).map Argument.raw ++ tail) := by
  induction args with
  | nil => rfl
  | cons a rest ih =>
    obtain ⟨readsHere, readsLater⟩ := List.forall_mem_cons.mp reads
    cases app : isAppArgument a with
    | true =>
      have skip : otherArguments (a :: rest) = otherArguments rest := List.filter_cons_of_neg (by simp [app])
      rw [skip] at same ⊢
      rw [List.flatMap_cons, otherWords_app app, List.nil_append, ih readsLater same]
    | false =>
      have keep : otherArguments (a :: rest) = a :: otherArguments rest := List.filter_cons_of_pos (by simp [app])
      rw [keep] at same ⊢
      obtain ⟨here, later⟩ := List.forall_mem_cons.mp same
      have some_ := otherWords_ne_nil readsHere here
      have nothing := flatMap_otherWords readsLater later
      rw [List.flatMap_cons, List.append_assoc, List.map_cons, List.cons_append]
      by_cases ends : otherArguments rest = [] ∧ tail = []
      · obtain ⟨none_, rfl⟩ := ends
        rw [nothing.mpr none_, none_, List.append_nil, List.append_nil, here]
        simp [joinSpace]
      · have front : rest.flatMap (fun a => otherWords a.raw) ++ tail ≠ [] := by
          rw [Ne, List.append_eq_nil_iff, nothing]
          exact ends
        have back : (otherArguments rest).map Argument.raw ++ tail ≠ [] := by
          rw [Ne, List.append_eq_nil_iff, List.map_eq_nil_iff]
          exact ends
        have left := intercalate_append (c := ' ') some_ front
        have right := @intercalate_append ' ' [a.raw] _ (by simp) back
        rw [List.intercalate_singleton, List.singleton_append] at right
        rw [joinSpace] at here
        rw [joinSpace, joinSpace] at *
        rw [left, right, here, ih readsLater later]

/-- The words of a comment that stay: the first one keeps the comment a comment. -/
theorem otherWords_comment {comment : List Char} (shape : comment = [] ∨ ∃ rest, comment = '#' :: rest) :
    (otherWords comment = [] ∧ comment = []) ∨
      (comment ≠ [] ∧ otherWords comment ≠ [] ∧ ∃ rest, (otherWords comment).head? = some ('#' :: rest)) := by
  obtain rfl | ⟨rest, rfl⟩ := shape
  · exact .inl ⟨rfl, rfl⟩
  · right
    have hash : isWhitespace '#' = false := rfl
    cases found : words isWhitespace ('#' :: rest) with
    | nil =>
      rw [words_letter hash] at found
      exact absurd found (wordsFrom_ne_nil (by simp))
    | cons word more =>
      rw [words_letter hash] at found
      obtain ⟨tail, _, _, rfl, _⟩ := wordsFrom_eq_cons (by simp) found
      have stays : isOurIncludeToken (['#'] ++ tail) = false := rfl
      have kept : otherWords ('#' :: rest) = (['#'] ++ tail) :: more.filter fun t => !isOurIncludeToken t := by
        rw [otherWords, splitWhitespace, words_letter hash, found, List.filter_cons_of_pos (by rw [stays]; rfl)]
      exact ⟨by simp, by rw [kept]; simp, tail, by rw [kept]; rfl⟩

/-- A value that fits is read as its other arguments when it is put together anew. -/
theorem argvSplit_rejoined {value comment tail : List Char} {args : List Argument}
    (found : arguments value = some (args, comment)) (behind : ReadsNothing tail)
    (same : ∀ a ∈ otherArguments args, joinSpace (otherWords a.raw) = a.raw)
    (closed : ClosedBefore (!comment.isEmpty || !tail.isEmpty) (otherArguments args)) :
    argvSplit (joinSpace (otherWords value) ++ tail) = some ((otherArguments args).map Argument.value) := by
  obtain ⟨reads, shape, text⟩ := OpenSsh.arguments_eq_some found
  have split : otherWords value = args.flatMap (fun a => otherWords a.raw) ++ otherWords comment := by
    rw [otherWords, splitWhitespace, text, List.filter_append, List.filter_flatMap]
    rfl
  have readsOther : ∀ a ∈ otherArguments args, a.Reads := fun a member => reads a (List.mem_of_mem_filter member)
  rw [split, join_arguments reads same]
  obtain ⟨none_, rfl⟩ | ⟨some_, kept, rest, head⟩ := otherWords_comment shape
  · rw [none_]
    exact OpenSsh.argvSplit_joined readsOther (.inl rfl) behind closed
  · refine OpenSsh.argvSplit_joined readsOther (.inr ⟨rest, head⟩) behind ?_
    have more : (!(otherWords comment).isEmpty) = !comment.isEmpty := by
      rw [List.isEmpty_eq_false_iff.mpr kept, List.isEmpty_eq_false_iff.mpr some_]
    rw [more]
    exact closed

/-- The letters of the keyword end no token. -/
theorem keyword_letters {keyword : List Char} (include_ : asciiLowercase keyword = "include".toList) :
    ∀ c ∈ keyword, isWhitespace c = false ∧ c ≠ '=' ∧ c ≠ '"' ∧ c ≠ '#' := by
  intro c member
  have lower : c.toLower ∈ "include".toList := by
    rw [← include_]
    exact List.mem_map_of_mem member
  by_cases upper : c.val ≥ 65 ∧ c.val ≤ 90
  · have least : 65 ≤ c.toNat := UInt32.le_iff_toNat_le.mp upper.1
    have most : c.toNat ≤ 90 := UInt32.le_iff_toNat_le.mp upper.2
    refine ⟨?_, ?_, ?_, ?_⟩
    · simp only [isWhitespace, Bool.or_eq_false_iff, Bool.and_eq_false_iff, decide_eq_false_iff_not, beq_eq_false_iff_ne]
      omega
    all_goals
      rintro rfl
      revert least
      decide
  · have same : c.toLower = c := dif_neg upper
    rw [same] at lower
    have letters : "include".toList.all (fun c => !isWhitespace c && c != '=' && c != '"' && c != '#') = true := by decide
    simpa [and_assoc] using List.all_eq_true.mp letters c lower

theorem skipSeparator_laidOut {d : Directive} (laid : LaidOut d) {rest : List Char}
    (first : ∀ c, rest.head? = some c → isWhitespace c = false)
    (equals : rest.head? = (joinSpace (otherWords d.value)).head?) :
    OpenSsh.skipSeparator (d.separator.text ++ rest) = rest := by
  have stops : ∀ c, rest.head? = some c → isDelimiterSpace c = false := fun c head =>
    HostsFile.not_isDelimiterSpace (first c head)
  unfold OpenSsh.skipSeparator
  obtain ⟨before, after, text, spaces⟩ | ⟨_, spaces, noEquals⟩ := laid.separator
  · obtain ⟨spacesBefore, spacesAfter⟩ := List.forall_mem_append.mp spaces
    rw [text, List.append_assoc, List.cons_append, HostsFile.dropWhile_append_stop spacesBefore fun c head => by
      cases head; rfl]
    exact HostsFile.dropWhile_append_stop spacesAfter stops
  · rw [HostsFile.dropWhile_append_stop spaces stops]
    split
    · exact absurd equals.symm noEquals
    · rfl

/-- A line that is laid out is read as its keyword and the text from the words that stay on. -/
theorem settingText_laidOut {d : Directive} (laid : LaidOut d) {value : List Char}
    (value_eq : value = joinSpace (otherWords d.value)) (letters : value ≠ [])
    (first : ∀ c, value.head? = some c → isWhitespace c = false)
    (last : isWhitespace (value.getLast letters) = false) :
    settingText (d.indent ++ (d.keyword ++ (d.separator.text ++ (value ++ (d.trailingWs ++ d.inlineComment.getD []))))) =
      some (d.keyword, value ++ behindValue d) := by
  have word := keyword_letters laid.keyword
  have some_ : d.keyword ≠ [] := by
    intro none_
    have include_ := laid.keyword
    rw [none_] at include_
    cases include_
  obtain ⟨c, more, head⟩ := List.exists_cons_of_ne_nil some_
  obtain ⟨b, text, start⟩ := List.exists_cons_of_ne_nil letters
  -- the end of the line is dropped behind the value
  have lineEnd : OpenSsh.isLineEnd (value.getLast letters) = false := by
    rw [Bool.eq_false_iff]
    intro ends
    rw [HostsFile.isWhitespace_of_isLineEnd ends] at last
    cases last
  have ended : (value ++ (d.trailingWs ++ d.inlineComment.getD [])).rdropWhile OpenSsh.isLineEnd =
      value ++ behindValue d := rdropWhile_append_of_not letters lineEnd _
  have whole : (d.indent ++ (d.keyword ++ (d.separator.text ++ (value ++ (d.trailingWs ++ d.inlineComment.getD []))))).rdropWhile
      OpenSsh.isLineEnd = d.indent ++ (d.keyword ++ (d.separator.text ++ (value ++ behindValue d))) := by
    rw [← List.append_assoc, ← List.append_assoc, HostsFile.rdropWhile_append_of_ne_nil (by rw [ended]; simp [start]), ended,
      List.append_assoc, List.append_assoc]
  -- then the keyword goes, with the separator behind it
  have skips : OpenSsh.skipSeparator (d.separator.text ++ (value ++ behindValue d)) = value ++ behindValue d :=
    skipSeparator_laidOut laid (by simpa [start] using first) (by rw [← value_eq, start]; rfl)
  have token : OpenSsh.strdelim (d.keyword ++ (d.separator.text ++ (value ++ behindValue d))) =
      some (d.keyword, some (value ++ behindValue d)) := by
    rw [HostsFile.strdelim_token (fun c member => ⟨(word c member).1, (word c member).2.1, (word c member).2.2.1⟩),
      if_neg (by simp [start]), skips]
    intro x front
    obtain ⟨before, after, same, spaces⟩ | ⟨sep, spaces, _⟩ := laid.separator
    · rw [same] at front
      cases before with
      | nil =>
        cases front
        exact .inr rfl
      | cons s _ =>
        cases front
        exact .inl (spaces _ (by simp))
    · obtain ⟨s, _, same⟩ := List.exists_cons_of_ne_nil sep
      rw [same] at front spaces
      cases front
      exact .inl (spaces _ List.mem_cons_self)
  have stays : (value ++ behindValue d).dropWhile isDelimiterSpace = value ++ behindValue d := by
    rw [start, List.cons_append, List.dropWhile_cons_of_neg]
    simp [HostsFile.not_isDelimiterSpace (first b (by rw [start]; rfl))]
  have here := word c (by rw [head]; exact List.mem_cons_self)
  have found : OpenSsh.firstToken (d.indent ++ (d.keyword ++ (d.separator.text ++ (value ++ behindValue d)))) =
      some (d.keyword, some (value ++ behindValue d)) := by
    unfold OpenSsh.firstToken
    cases indent : d.indent with
    | nil =>
      rw [List.nil_append, token, head]
    | cons s spaces =>
      rw [HostsFile.strdelim_indent (by simp) (by rw [← indent]; exact laid.indent)]
      · exact token
      · intro x front
        rw [head] at front
        cases front
        exact ⟨HostsFile.not_isDelimiterSpace here.1, here.2.1⟩
  rw [settingText, whole, found, Option.bind_some]
  show (if d.keyword = [] ∨ d.keyword.head? = some '#' then none
    else some (d.keyword, (value ++ behindValue d).dropWhile isDelimiterSpace)) = _
  rw [if_neg, stays]
  rw [head]
  simpa using here.2.2.2

theorem joinSpace_ends {tokens : List (List Char)} (each : ∀ t ∈ tokens, IsWord isWhitespace t) (some_ : tokens ≠ []) :
    ∃ letters : joinSpace tokens ≠ [], (∀ c, (joinSpace tokens).head? = some c → isWhitespace c = false) ∧
      isWhitespace ((joinSpace tokens).getLast letters) = false := by
  unfold joinSpace
  induction tokens with
  | nil => exact absurd rfl some_
  | cons word rest ih =>
    obtain ⟨⟨notNil, plain⟩, others⟩ := List.forall_mem_cons.mp each
    cases rest with
    | nil =>
      rw [List.intercalate_singleton]
      exact ⟨notNil, fun c head => plain c (List.mem_of_head? head), plain _ (List.getLast_mem notNil)⟩
    | cons next more =>
      obtain ⟨later, _, last⟩ := ih others (by simp)
      obtain ⟨c, word', rfl⟩ := List.exists_cons_of_ne_nil notNil
      rw [List.intercalate_cons_cons]
      refine ⟨by simp, fun x head => ?_, ?_⟩
      · cases head
        exact plain c List.mem_cons_self
      · rw [List.getLast_append_of_ne_nil _ later]
        exact last

/-- What ssh reads of a line that was put together anew. -/
theorem includePaths_rejoined {d : Directive} {args : List Argument} (fits : CanLose d args) (some_ : otherWords d.value ≠ []) :
    includePaths (renderDirective { d with value := joinSpace (otherWords d.value), dirty := true, enabled := true }) =
      some ((otherArguments args).map Argument.value) := by
  obtain ⟨laid, comment, found, same, closed⟩ := fits
  have each : ∀ t ∈ otherWords d.value, IsWord isWhitespace t := fun t member => mem_words (List.mem_of_mem_filter member)
  obtain ⟨letters, first, last⟩ := joinSpace_ends each some_
  have line : renderDirective { d with value := joinSpace (otherWords d.value), dirty := true, enabled := true } =
      d.indent ++ (d.keyword ++ (d.separator.text ++ (joinSpace (otherWords d.value) ++
        (d.trailingWs ++ d.inlineComment.getD [])))) := by
    simp [renderDirective, Directive.serializesAsComment, Directive.rest]
  rw [includePaths, OpenSsh.readLine_settingText, line, settingText_laidOut laid rfl letters first last]
  dsimp only
  rw [if_pos laid.keyword]
  exact argvSplit_rejoined found laid.behind same closed

theorem withoutOurTokens_reduced {item : Item} (fits : ∀ d, enabledInclude item = some d → LineFits d) :
    Reduced item (withoutOurTokens item) := by
  unfold Reduced
  cases live : enabledInclude item with
  | none => simp [withoutOurTokens, live]
  | some d =>
    intro args comment read
    have fit := fits d live args comment read
    have tokens := lineTokens_live live
    have ours_eq : hasOurToken item = (splitWhitespace d.value).any isOurIncludeToken := by rw [hasOurToken_eq, tokens]
    rw [← ours_eq] at fit
    obtain ⟨clean, same⟩ | ⟨ours, gone, all⟩ | ⟨ours, d', left, live', kept, shape, listed⟩ := withoutOurTokens_cases item
    · rw [if_neg (by simp [clean])] at fit
      rw [same]
      refine ⟨d, live, ?_⟩
      rw [includePaths_eq, read, Option.map_some, fit]
    · rw [if_pos ours] at fit
      obtain ⟨_, comment, found, same, _⟩ := fit
      rw [gone]
      obtain ⟨reads, _, text⟩ := OpenSsh.arguments_eq_some found
      by_contra some_
      obtain ⟨a, rest, cons⟩ := List.exists_cons_of_ne_nil some_
      have member : a ∈ otherArguments args := by rw [cons]; exact List.mem_cons_self
      have inArgs := List.mem_of_mem_filter member
      refine otherWords_ne_nil (reads a inArgs) (same a member) (List.filter_eq_nil_iff.mpr fun t inWords => ?_)
      have isOurs := all t (by
        rw [tokens, splitWhitespace, text]
        exact List.mem_append_left _ (List.mem_flatMap.mpr ⟨a, inArgs, inWords⟩))
      simp [isOurs]
    · rw [if_pos ours] at fit
      rw [live] at live'
      cases live'
      rw [kept, shape]
      refine ⟨_, enabledInclude_withTokens live _, ?_⟩
      rw [tokens]
      refine includePaths_rejoined fit fun none_ => ?_
      rw [otherWords] at none_
      simp only [withoutOurTokens, live, if_pos (ours_eq ▸ ours), none_, List.isEmpty_nil, if_true] at kept
      cases kept

/-! ## The whole file -/

/-- The items under the line at the top, or all of them when there is no such line. -/
def otherItems (items : List Item) (tokens : List (List Char)) : List Item :=
  if tokens = [] then items else items.eraseIdx (syncIncludeIndex items)

/-- A second call changes nothing, the app's tokens are in the top line only, and every other Include lists its other
paths as before. -/
def EnsureKeeps (u : UnicodeTables) (items : List Item) (tokens : List (List Char)) : Prop :=
  let after := (ensureInclude u items tokens).1
  ensureInclude u after tokens = (after, false) ∧ OursAtTop after tokens ∧
    ((ensureInclude u items tokens).2 = false → after = items) ∧
    ((ensureInclude u items tokens).2 = true →
      ∃ left : List (Option Item), List.Forall₂ Reduced items left ∧ otherItems after tokens = left.reduceOption)

/-- Every token is one word and not the agent's, and the lines that have to change can. -/
def EnsureFits (items : List Item) (tokens : List (List Char)) : Prop :=
  (∀ t ∈ tokens, Listable t) ∧ (includeIsCorrect items tokens = true ∨
    ∀ item ∈ items, ∀ d, enabledInclude item = some d → LineFits d)

/-- No token but one of the app's goes, none of an existing file that did not move goes, and a moved file that was
read is listed by its new path. -/
def ReleaseKeeps (globMatches : List Char → List Char → Bool) (kept : List (List Char × List Char))
    (exists_ : List Char → Bool) (items : List Item) : Prop :=
  let after := (releaseInclude globMatches items kept exists_).1
  ((listedTokens items).filter (mustStay kept exists_)).Sublist (listedTokens after) ∧
    ∀ old new, movedTo kept old = some new → listsInclude globMatches items old = true → new ∈ listedTokens after

/-- A file moves to a path of one word, from a token of the app or out of a glob of the app that stays. -/
def ReleaseFits (globMatches : List Char → List Char → Bool) (kept : List (List Char × List Char))
    (items : List Item) : Prop :=
  ∀ old new, movedTo kept old = some new → listsInclude globMatches items old = true → IsWord isWhitespace new ∧
    if old ∈ listedTokens items then isOurIncludeToken old = true
    else ∃ t ∈ listedTokens items, isOurIncludeToken t = true ∧ movedTo kept t = none ∧
      globCovers globMatches t old = true

theorem forall₂_map_right {α β : Type} {R : α → β → Prop} {f : α → β} {l : List α} (each : ∀ a ∈ l, R a (f a)) :
    List.Forall₂ R l (l.map f) := by
  induction l with
  | nil => exact .nil
  | cons a rest ih =>
    obtain ⟨first, others⟩ := List.forall_mem_cons.mp each
    exact .cons first (ih others)

theorem reduceOption_map {α β : Type} (f : α → Option β) (l : List α) : (l.map f).reduceOption = l.filterMap f := by
  rw [List.reduceOption, List.filterMap_map]
  rfl

theorem ensureInclude_keeps {items : List Item} {tokens : List (List Char)} (fits : EnsureFits items tokens) :
    EnsureKeeps u items tokens := by
  obtain ⟨listable, lines⟩ := fits
  refine ⟨(ensureInclude_idempotent items tokens).mpr listable, ensureInclude_top items listable, ?_, ?_⟩
  · intro unchanged
    unfold ensureInclude at unchanged ⊢
    split at unchanged
    · next correct => rw [if_pos correct]
    · dsimp only at unchanged
      split at unchanged <;> cases unchanged
  · intro changed
    cases correct : includeIsCorrect items tokens with
    | true =>
      rw [ensureInclude, if_pos correct] at changed
      cases changed
    | false =>
      rw [correct] at lines
      have fit := lines.resolve_left (by simp)
      refine ⟨items.map withoutOurTokens, forall₂_map_right fun item member => withoutOurTokens_reduced (fit item member), ?_⟩
      rw [reduceOption_map, ensureInclude, if_neg (by simp [correct]), otherItems]
      by_cases none_ : tokens = []
      · rw [if_pos none_]
        simp [none_]
      · rw [if_neg none_]
        obtain ⟨d, live, listed⟩ := newLine_tokens (u := u) fun t member => (listable t member).1
        obtain ⟨above, below, split, inserted, stays, _⟩ := insertIdx_top items
          (.Directive (.new u "Include".toList (joinSpace tokens) []))
        have notAbove : staysAbove (.Directive (.new u "Include".toList (joinSpace tokens) [])) = false := by
          simp only [staysAbove, isAgentInclude, live, Option.any_some, listed]
          simpa using fun member => (listable _ member).2 rfl
        simp only [List.isEmpty_iff, if_neg none_, inserted]
        rw [syncIncludeIndex_append stays fun item head => by cases head; exact notAbove,
          List.eraseIdx_append_of_length_le (Nat.le_refl _), Nat.sub_self, List.eraseIdx_cons_zero, split]

theorem releaseInclude_keeps (globMatches : List Char → List Char → Bool) {kept : List (List Char × List Char)}
    (exists_ : List Char → Bool) {items : List Item} (fits : ReleaseFits globMatches kept items) :
    ReleaseKeeps globMatches kept exists_ items := by
  have placed : ∀ old, old ∉ listedTokens items →
      old ∉ (listedTokens items).filterMap fun t => (kept.find? fun entry => entry.1 = t).map Prod.fst := by
    intro old absent member
    obtain ⟨t, listed, found⟩ := List.mem_filterMap.mp member
    obtain ⟨entry, first, rfl⟩ := Option.map_eq_some_iff.mp found
    have same := List.find?_some first
    simp only [decide_eq_true_eq] at same
    exact absent (same ▸ listed)
  have released := releaseItems_released globMatches kept exists_
    ((listedTokens items).filterMap fun t => (kept.find? fun entry => entry.1 = t).map Prod.fst) items
  unfold ReleaseKeeps releaseInclude
  simp only [flatMap_enabledInclude]
  refine ⟨released.1, fun old new moved lists => ?_⟩
  obtain ⟨word, place⟩ := fits old new moved lists
  obtain ⟨explicit, covered⟩ := released.2 old new moved word
  split at place
  · next listed => exact explicit listed place
  · next absent =>
    obtain ⟨t, listed, ours, own, covers⟩ := place
    exact covered (placed old absent) t listed ours own covers

theorem listedTokens_words {items : List Item} {t : List Char} (listed : t ∈ listedTokens items) :
    IsWord isWhitespace t := by
  obtain ⟨item, _, member⟩ := List.mem_flatMap.mp listed
  exact lineTokens_words member

/-- Includes that fit keep what they list; for the tokens, and for the new path of a moved file that was read, this
is needed as well. -/
theorem includes_keep_what_they_list (u : UnicodeTables) (items : List Item) (tokens : List (List Char))
    (globMatches : List Char → List Char → Bool) (kept : List (List Char × List Char)) (exists_ : List Char → Bool) :
    (EnsureFits items tokens → EnsureKeeps u items tokens) ∧
      (EnsureKeeps u items tokens → ∀ t ∈ tokens, Listable t) ∧
      (ReleaseFits globMatches kept items → ReleaseKeeps globMatches kept exists_ items) ∧
      (ReleaseKeeps globMatches kept exists_ items → ∀ old new, movedTo kept old = some new →
        listsInclude globMatches items old = true → IsWord isWhitespace new) :=
  ⟨ensureInclude_keeps, fun keeps => (ensureInclude_idempotent items tokens).mp keeps.1,
    releaseInclude_keeps globMatches exists_, fun keeps old new moved lists => listedTokens_words (keeps.2 old new moved lists)⟩

namespace Sample

open HostsFile.Sample (asciiTables)

def ours : List Char := "~/.ssh/sshelter/x.config".toList

/-- An Include of a path with two blanks in it and of a file of the app. -/
def spaced : Directive where
  keyword := "Include".toList
  key := "include".toList
  value := "\"~/my  dir/b.config\" ~/.ssh/sshelter/x.config".toList
  separator := .Space [' ']
  indent := []
  trailingWs := []
  inlineComment := none
  enabled := true
  raw := "Include \"~/my  dir/b.config\" ~/.ssh/sshelter/x.config".toList
  dirty := false

/-- An Include of a path without blanks and of a file of the app, with a comment behind them. -/
def shared : Directive :=
  { spaced with
    value := "~/.ssh/a.config ~/.ssh/sshelter/x.config".toList
    inlineComment := some " # mine".toList
    raw := "Include ~/.ssh/a.config ~/.ssh/sshelter/x.config # mine".toList }

def moved : List Char := "~/.ssh/sshelter-local/x.config".toList

def spacedPath : Argument := ⟨"\"~/my  dir/b.config\"".toList, "~/my  dir/b.config".toList⟩

def plainPath : Argument := ⟨"~/.ssh/a.config".toList, "~/.ssh/a.config".toList⟩

/-- A path in front of a token of the app, and what is behind that. -/
theorem arguments_before {text behind comment : List Char} {path : Argument}
    (starts : (text.head?.any fun c => !OpenSsh.isArgumentSpace c && c != '#') = true)
    (first : OpenSsh.scanWord none text = some (path, ' ' :: (ours ++ behind)))
    (second : OpenSsh.scanWord none (ours ++ behind) = some (⟨ours, ours⟩, behind))
    (last : arguments behind = some ([], comment)) :
    arguments text = some ([path, ⟨ours, ours⟩], comment) := by
  have rest : arguments (ours ++ behind) = some ([⟨ours, ours⟩], comment) := by
    rw [OpenSsh.arguments_word rfl second, last]
    rfl
  rw [OpenSsh.arguments_word starts first, OpenSsh.arguments_blank (by decide), rest]
  rfl

theorem spaced_arguments : includeArguments (renderDirective spaced) = some ([spacedPath, ⟨ours, ours⟩], []) := by
  have text : settingText (renderDirective spaced) = some ("Include".toList, spaced.value) := by decide +kernel
  rw [includeArguments, text]
  exact arguments_before (by decide) (by decide) (by decide) OpenSsh.arguments_nil

theorem remark_arguments : arguments " # mine".toList = some ([], "# mine".toList) := by
  show arguments (' ' :: '#' :: " mine".toList) = _
  rw [OpenSsh.arguments_blank rfl, arguments, if_neg (by decide), if_pos rfl]
  rfl

theorem shared_arguments :
    includeArguments (renderDirective shared) = some ([plainPath, ⟨ours, ours⟩], "# mine".toList) ∧
      arguments shared.value = some ([plainPath, ⟨ours, ours⟩], []) := by
  have text : settingText (renderDirective shared) =
      some ("Include".toList, shared.value ++ " # mine".toList) := by decide +kernel
  constructor
  · rw [includeArguments, text]
    exact arguments_before (by decide) (by decide) (by decide) remark_arguments
  · exact arguments_before (by decide) (by decide) (by decide) OpenSsh.arguments_nil

theorem shared_laidOut : LaidOut shared where
  indent := List.forall_mem_nil _
  keyword := by decide
  separator := .inr ⟨by decide, List.forall_mem_singleton.mpr rfl, by decide +kernel⟩
  behind := .inr ⟨' ', "# mine".toList, by decide +kernel, rfl, by
    show OpenSsh.argvSplitFrom none ('#' :: " mine".toList) = some []
    rw [OpenSsh.argvSplitFrom]
    decide⟩

theorem shared_ensureFits : EnsureFits [.Directive shared] [ours] := by
  refine ⟨fun t member => ?_, .inr fun item member d live args comment found => ?_⟩
  · rw [List.mem_singleton.mp member]
    exact ⟨isWord_iff.mpr (by decide), by decide +kernel⟩
  · obtain rfl := List.mem_singleton.mp member
    obtain ⟨same, _⟩ := enabledInclude_eq_some.mp live
    cases same
    rw [shared_arguments.1] at found
    cases found
    have others : otherArguments [plainPath, ⟨ours, ours⟩] = [plainPath] := by decide
    rw [if_pos (by decide +kernel)]
    refine ⟨shared_laidOut, [], shared_arguments.2, ?_⟩
    rw [others]
    refine ⟨fun a inside => ?_, ⟨fun _ c blank => ?_, trivial⟩⟩
    · rw [List.mem_singleton.mp inside]
      decide
    · simp only [OpenSsh.isArgumentSpace, Bool.or_eq_true, decide_eq_true_eq] at blank
      obtain rfl | rfl := blank <;> decide

theorem shared_releaseFits : ReleaseFits (fun _ _ => false) [(ours, moved)] [.Directive shared] := by
  intro old new found _
  have entry := movedTo_mem found
  simp only [List.mem_singleton, Prod.mk.injEq] at entry
  obtain ⟨rfl, rfl⟩ := entry
  refine ⟨isWord_iff.mpr (by decide), ?_⟩
  rw [if_pos (by decide)]
  decide

end Sample

open HostsFile.Sample (asciiTables)

theorem shared_include_keeps :
    classifyLine asciiTables Sample.shared.raw = .Directive Sample.shared ∧
      EnsureFits [.Directive Sample.shared] [Sample.ours] ∧ EnsureKeeps asciiTables [.Directive Sample.shared] [Sample.ours] ∧
      ReleaseKeeps (fun _ _ => false) [(Sample.ours, Sample.moved)] (fun _ => false) [.Directive Sample.shared] := by
  obtain ⟨ensure, _, release, _⟩ := includes_keep_what_they_list asciiTables [.Directive Sample.shared] [Sample.ours]
    (fun _ _ => false) [(Sample.ours, Sample.moved)] (fun _ => false)
  exact ⟨by decide +kernel, Sample.shared_ensureFits, ensure Sample.shared_ensureFits, release Sample.shared_releaseFits⟩

/-- A path with two blanks in it is put together with one. -/
theorem ensureInclude_breaks_spaced_path :
    classifyLine asciiTables Sample.spaced.raw = .Directive Sample.spaced ∧
      ¬ EnsureKeeps asciiTables [.Directive Sample.spaced] [Sample.ours] := by
  refine ⟨by decide +kernel, fun keeps => ?_⟩
  obtain ⟨left, reduced, same⟩ := keeps.2.2.2 (by decide)
  have values : (otherItems (ensureInclude asciiTables [.Directive Sample.spaced] [Sample.ours]).1 [Sample.ours]).map
      (fun item => (enabledInclude item).map fun d => settingText (renderDirective d)) =
        [some (some ("Include".toList, "\"~/my dir/b.config\"".toList))] := by decide +kernel
  have scan : OpenSsh.scanWord none "\"~/my dir/b.config\"".toList =
      some (⟨"\"~/my dir/b.config\"".toList, "~/my dir/b.config".toList⟩, []) := by decide +kernel
  have others : otherArguments [Sample.spacedPath, ⟨Sample.ours, Sample.ours⟩] = [Sample.spacedPath] := by decide +kernel
  obtain ⟨l, rfl⟩ : ∃ l, left = [l] := List.length_eq_one_iff.mp reduced.length_eq.symm
  obtain ⟨first, _⟩ := List.forall₂_cons.mp reduced
  have read := first [Sample.spacedPath, ⟨Sample.ours, Sample.ours⟩] [] Sample.spaced_arguments
  rw [others] at read
  cases l with
  | none => cases read
  | some line =>
    obtain ⟨d, live, argv⟩ := read
    rw [same] at values
    simp only [List.reduceOption_cons_of_some, List.reduceOption_nil, List.map_cons, List.map_nil, live, Option.map_some,
      List.cons.injEq, Option.some.injEq, and_true] at values
    have read : includeArguments (renderDirective d) =
        some ([⟨"\"~/my dir/b.config\"".toList, "~/my dir/b.config".toList⟩], []) := by
      rw [includeArguments, values]
      show arguments _ = _
      rw [OpenSsh.arguments_word (by decide) scan, OpenSsh.arguments_nil]
      rfl
    rw [includePaths_eq, read] at argv
    revert argv
    decide +kernel

end Sshelter.Sync.IncludeList
