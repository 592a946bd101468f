import Sshelter.Lib.JoinedWords
import Sshelter.Config.OpenSshReader

/-! # Arguments as they are written

`argvSplit` gives the values of the arguments; here each value comes with the text it was read
from.  An argument is read alike wherever its text stands, except that a backslash at its end
takes a blank behind it for itself.
-/

namespace Sshelter.Config.OpenSsh

open Text

/-- An argument: the text on the line and what it is read as. -/
structure Argument where
  raw : List Char
  value : List Char
deriving DecidableEq, Repr

def Argument.push (raw value : List Char) (a : Argument) : Argument := ⟨raw ++ a.raw, value ++ a.value⟩

/-- What a character does that escapes nothing: nothing when it ends the argument, otherwise the quote that is open
afterwards and what is read. -/
def wordStep (quote : Option Char) (c : Char) : Option (Option Char × List Char) :=
  if c = '\\' then some (quote, [c])
  else if quote.isNone && isArgumentSpace c then none
  else if quote.isNone && (c = '"' || c = '\'') then some (some c, [])
  else if quote = some c then some (none, [])
  else some (quote, [c])

/-- The rest of an argument, with the quote that is open, and the text after it. -/
def scanWord : (quote : Option Char) → List Char → Option (Argument × List Char)
  | quote, [] => if quote.isNone then some (⟨[], []⟩, []) else none
  | quote, '\\' :: c :: rest =>
    if escapes quote (some c) then (scanWord quote rest).map fun (a, after) => (a.push ['\\', c] [c], after)
    else (scanWord quote (c :: rest)).map fun (a, after) => (a.push ['\\'] ['\\'], after)
  | quote, c :: rest =>
    match wordStep quote c with
    | none => some (⟨[], []⟩, c :: rest)
    | some (quote', read) => (scanWord quote' rest).map fun (a, after) => (a.push [c] read, after)

theorem wordStep_ends {quote : Option Char} {c : Char} (ends : wordStep quote c = none) :
    quote = none ∧ isArgumentSpace c = true := by
  unfold wordStep at ends
  split at ends
  · cases ends
  · split at ends
    · next blank => simpa using blank
    · split at ends
      · cases ends
      · split at ends <;> cases ends

/-- An argument is the front of the text and ends at a blank or with the text. -/
theorem scanWord_split {quote : Option Char} {s after : List Char} {a : Argument}
    (scan : scanWord quote s = some (a, after)) :
    s = a.raw ++ after ∧ ∀ c, after.head? = some c → isArgumentSpace c = true := by
  -- one more piece in front
  have push {s after : List Char} {raw value : List Char} {quote : Option Char} {a : Argument}
      (ih : ∀ {a : Argument}, scanWord quote s = some (a, after) →
        s = a.raw ++ after ∧ ∀ c, after.head? = some c → isArgumentSpace c = true)
      (scan : (scanWord quote s).map (fun found => (found.1.push raw value, found.2)) = some (a, after)) :
      raw ++ s = a.raw ++ after ∧ ∀ c, after.head? = some c → isArgumentSpace c = true := by
    obtain ⟨⟨a', after'⟩, found, same⟩ := Option.map_eq_some_iff.mp scan
    cases same
    obtain ⟨parts, ends⟩ := ih found
    exact ⟨by rw [parts, Argument.push, List.append_assoc], ends⟩
  induction quote, s using scanWord.induct generalizing a with
  | case1 quote closed =>
    rw [scanWord, if_pos closed] at scan
    cases scan
    simp
  | case2 quote opened =>
    rw [scanWord, if_neg opened] at scan
    cases scan
  | case3 quote c rest escaped ih =>
    rw [scanWord, if_pos escaped] at scan
    exact push ih scan
  | case4 quote c rest plain ih =>
    rw [scanWord, if_neg plain] at scan
    exact push ih scan
  | case5 quote c rest other ends =>
    rw [scanWord] at scan
    · rw [ends] at scan
      cases scan
      refine ⟨rfl, fun x head => ?_⟩
      cases head
      exact (wordStep_ends ends).2
    · exact other
  | case6 quote c rest other quote' read step ih =>
    rw [scanWord] at scan
    · rw [step] at scan
      exact push ih scan
    · exact other

theorem wordStep_backslash (quote : Option Char) : wordStep quote '\\' = some (quote, ['\\']) := rfl

/-- An argument is read alike before another text that begins like the one behind it, and at the end of a text. -/
theorem scanWord_moved {quote : Option Char} {s after after' : List Char} {a : Argument}
    (scan : scanWord quote s = some (a, after)) (alike : after' = [] ∨ after'.head? = after.head?) :
    scanWord quote (a.raw ++ after') = some (a, after') := by
  induction quote, s using scanWord.induct generalizing a with
  | case1 quote closed =>
    rw [scanWord, if_pos closed] at scan
    cases scan
    obtain rfl : after' = [] := by simpa using alike
    rw [List.nil_append, scanWord, if_pos closed]
  | case2 quote opened =>
    rw [scanWord, if_neg opened] at scan
    cases scan
  | case3 quote c rest escaped ih =>
    rw [scanWord, if_pos escaped] at scan
    obtain ⟨⟨a', _⟩, found, same⟩ := Option.map_eq_some_iff.mp scan
    cases same
    show scanWord quote ('\\' :: c :: (a'.raw ++ after')) = _
    rw [scanWord, if_pos escaped, ih found, Option.map_some]
  | case4 quote c rest plain ih =>
    rw [scanWord, if_neg plain] at scan
    obtain ⟨⟨a', _⟩, found, same⟩ := Option.map_eq_some_iff.mp scan
    cases same
    obtain ⟨parts, _⟩ := scanWord_split found
    have inner := ih found
    show scanWord quote ('\\' :: (a'.raw ++ after')) = _
    cases more : a'.raw ++ after' with
    | nil =>
      rw [more] at inner
      rw [scanWord, wordStep_backslash]
      · simp only [inner, Option.map_some]
      · exact fun _ _ _ same => by cases same
    | cons d tail =>
      -- the character behind the backslash is the same one
      have same : d = c := by
        cases raw : a'.raw with
        | nil =>
          rw [raw] at more parts
          obtain rfl | alike := alike
          · cases more
          · rw [List.nil_append] at more parts
            rw [more, ← parts] at alike
            exact Option.some.inj alike
        | cons x xs =>
          rw [raw] at more parts
          exact (List.cons.inj more).1.symm.trans (List.cons.inj parts).1.symm
      subst same
      rw [more] at inner
      rw [scanWord, if_neg plain, inner, Option.map_some]
  | case5 quote c rest other ends =>
    rw [scanWord] at scan
    · rw [ends] at scan
      cases scan
      obtain ⟨rfl, _⟩ := wordStep_ends ends
      rw [List.nil_append]
      obtain rfl | alike := alike
      · rfl
      · obtain ⟨tail, rfl⟩ := List.head?_eq_some_iff.mp alike
        rw [scanWord, ends]
        rintro d more rfl rfl
        cases ends
    · exact other
  | case6 quote c rest other quote' read step ih =>
    rw [scanWord] at scan
    · rw [step] at scan
      obtain ⟨⟨a', _⟩, found, same⟩ := Option.map_eq_some_iff.mp scan
      cases same
      obtain ⟨parts, _⟩ := scanWord_split found
      have inner := ih found
      show scanWord quote (c :: (a'.raw ++ after')) = _
      rw [scanWord, step]
      · simp only [inner, Option.map_some]
      · rintro d more rfl same
        cases rest with
        | nil =>
          obtain ⟨raw, rfl⟩ := List.append_eq_nil_iff.mp parts.symm
          rw [raw, List.nil_append] at same
          obtain rfl | alike := alike
          · cases same
          · rw [same] at alike
            cases alike
        | cons e tail => exact other e tail rfl rfl
    · exact other

/-- `argvSplit` inside an argument. -/
theorem argvSplitFrom_scanWord (quote : Option Char) (read s : List Char) :
    argvSplitFrom (some (quote, read)) s = (scanWord quote s).bind fun (a, after) =>
      (argvSplitFrom none after).map ((read ++ a.value) :: ·) := by
  have push (read : List Char) (found : Option (Argument × List Char)) (raw value : List Char) :
      ((found.map fun (a, after) => (a.push raw value, after)).bind fun (a, after) =>
        (argvSplitFrom none after).map ((read ++ a.value) :: ·)) =
      found.bind fun (a, after) => (argvSplitFrom none after).map ((read ++ value ++ a.value) :: ·) := by
    cases found <;> simp [Argument.push]
  -- the induction follows the scan of one word, with what was read of it so far
  induction quote, s using scanWord.induct generalizing read with
  | case1 quote closed =>
    obtain rfl := Option.isNone_iff_eq_none.mp closed
    simp [scanWord, argvSplitFrom]
  | case2 quote opened =>
    cases quote with
    | none => exact absurd rfl opened
    | some c => simp [scanWord, argvSplitFrom]
  | case3 quote c rest escaped ih =>
    rw [argvSplitFrom, scanWord, if_pos escaped, push]
    simp [escaped, ih]
  | case4 quote c rest plain ih =>
    rw [argvSplitFrom, scanWord, if_neg plain, push]
    simp [plain, ih]
  | case5 quote c rest other ends =>
    obtain ⟨rfl, blank⟩ := wordStep_ends ends
    have letter : c ≠ '\\' := by
      rintro rfl
      cases ends
    rw [scanWord, ends, argvSplitFrom]
    · simp [letter, blank, argvSplitFrom]
    · exact other
  | case6 quote c rest other quote' more step ih =>
    rw [scanWord, step, argvSplitFrom]
    · simp only [push]
      rw [← ih]
      -- the remaining characters: a slash before nothing to escape, a quote, or a letter
      unfold wordStep at step
      split at step
      · next slash =>
        cases step
        have none_ : rest = [] := by
          cases rest with
          | nil => rfl
          | cons d more => exact (other d more slash rfl).elim
        simp [slash, none_, escapes]
      · next letter =>
        split at step
        · cases step
        · next notBlank =>
          split at step
          · next opens =>
            cases step
            simp only [Bool.and_eq_true, Option.isNone_iff_eq_none, Bool.or_eq_true, decide_eq_true_eq] at opens
            obtain ⟨rfl, quotes⟩ := opens
            simp at notBlank
            simp [letter, notBlank, quotes]
          · next notOpens =>
            simp only [Bool.and_eq_true, Option.isNone_iff_eq_none, Bool.or_eq_true, decide_eq_true_eq] at notOpens notBlank
            split at step
            · next closes =>
              cases step
              simp [letter, closes]
            · next notCloses =>
              cases step
              simp [letter, notBlank, notOpens, notCloses]
    · exact other

/-! ## The arguments of a line -/

theorem scanWord_some {c : Char} {rest after : List Char} {a : Argument} (letter : isArgumentSpace c = false)
    (scan : scanWord none (c :: rest) = some (a, after)) : ∃ more, a.raw = c :: more := by
  obtain ⟨parts, ends⟩ := scanWord_split scan
  cases raw : a.raw with
  | nil =>
    rw [raw, List.nil_append] at parts
    have blank := ends c (by rw [← parts]; rfl)
    rw [letter] at blank
    cases blank
  | cons d more =>
    rw [raw] at parts
    obtain ⟨rfl, _⟩ := List.cons.inj parts
    exact ⟨more, rfl⟩

/-- The arguments as they are written, and the comment behind them. -/
def arguments (s : List Char) : Option (List Argument × List Char) :=
  match s with
  | [] => some ([], [])
  | c :: rest =>
    if isArgumentSpace c = true then arguments rest
    else if c = '#' then some ([], c :: rest)
    else
      match _found : scanWord none (c :: rest) with
      | none => none
      | some (a, after) => (arguments after).map fun (others, comment) => (a :: others, comment)
termination_by s.length
decreasing_by
  · simp
  · next letter _ =>
    obtain ⟨more, raw⟩ := scanWord_some (by simpa using letter) _found
    have parts := congrArg List.length (scanWord_split _found).1
    simp only [raw, List.length_append, List.length_cons] at parts ⊢
    omega

theorem arguments_nil : arguments [] = some ([], []) := by rw [arguments]

theorem arguments_blank {c : Char} (blank : isArgumentSpace c = true) (rest : List Char) :
    arguments (c :: rest) = arguments rest := by rw [arguments, if_pos blank]

theorem arguments_word {s after : List Char} {a : Argument}
    (starts : (s.head?.any fun c => !isArgumentSpace c && c != '#') = true) (scan : scanWord none s = some (a, after)) :
    arguments s = (arguments after).map fun (others, comment) => (a :: others, comment) := by
  cases s with
  | nil => cases starts
  | cons c rest =>
    simp only [List.head?_cons, Option.any_some, Bool.and_eq_true, Bool.not_eq_true', bne_iff_ne] at starts
    rw [arguments, if_neg (by simp [starts.1]), if_neg starts.2]
    split
    · next none_ =>
      rw [scan] at none_
      cases none_
    · next found =>
      rw [scan] at found
      cases found
      rfl

theorem argvSplitFrom_start {c : Char} (letter : ¬ isArgumentSpace c = true) (notHash : ¬ c = '#') (rest : List Char) :
    argvSplitFrom none (c :: rest) = (scanWord none (c :: rest)).bind fun (a, after) =>
      (argvSplitFrom none after).map (a.value :: ·) := by
  have inside : argvSplitFrom none (c :: rest) = argvSplitFrom (some (none, [])) (c :: rest) := by
    rw [argvSplitFrom, argvSplitFrom]
    simp [letter, notHash]
  rw [inside, argvSplitFrom_scanWord]
  rfl

theorem argvSplit_arguments (s : List Char) :
    argvSplit s = (arguments s).map fun found => found.1.map Argument.value := by
  rw [argvSplit]
  induction s using arguments.induct with
  | case1 => simp [arguments, argvSplitFrom]
  | case2 c rest blank ih =>
    rw [arguments, if_pos blank, ← ih, argvSplitFrom]
    simp [blank]
  | case3 rest letter =>
    rw [arguments, if_neg letter, if_pos rfl, argvSplitFrom]
    simp [isArgumentSpace]
  | case4 c rest letter notHash none_ =>
    rw [argvSplitFrom_start letter notHash, none_, arguments, if_neg letter, if_neg notHash]
    split
    · rfl
    · next found =>
      rw [none_] at found
      cases found
  | case5 c rest letter notHash a after found ih =>
    rw [argvSplitFrom_start letter notHash, found, arguments, if_neg letter, if_neg notHash]
    split
    · next none_ =>
      rw [found] at none_
      cases none_
    · next found' =>
      rw [found] at found'
      cases found'
      simp only [Option.bind_some, ih]
      cases arguments after <;> rfl

/-- The text of an argument is read as it on its own. -/
structure Argument.Reads (a : Argument) : Prop where
  starts : ∃ c more, a.raw = c :: more ∧ isArgumentSpace c = false ∧ c ≠ '#'
  alone : scanWord none a.raw = some (a, [])

/-- The text of an argument is read as it also before a blank. -/
def Argument.Closed (a : Argument) : Prop :=
  ∀ c, isArgumentSpace c = true → scanWord none (a.raw ++ [c]) = some (a, [c])

/-- What `arguments` takes off a text. -/
theorem arguments_eq_some {s comment : List Char} {args : List Argument} (found : arguments s = some (args, comment)) :
    (∀ a ∈ args, a.Reads) ∧ (comment = [] ∨ ∃ rest, comment = '#' :: rest) ∧
      words isWhitespace s = args.flatMap (fun a => words isWhitespace a.raw) ++ words isWhitespace comment := by
  -- what separates arguments for ssh separates words for the program
  have white {c : Char} (blank : isArgumentSpace c = true) : isWhitespace c = true := by
    simp only [isArgumentSpace, Bool.or_eq_true, decide_eq_true_eq] at blank
    obtain rfl | rfl := blank <;> rfl
  -- the induction follows the arguments taken off the text
  induction s using arguments.induct generalizing args comment with
  | case1 =>
    rw [arguments] at found
    cases found
    exact ⟨by simp, .inl rfl, rfl⟩
  | case2 c rest blank ih =>
    rw [arguments, if_pos blank] at found
    rw [words_separator (white blank)]
    exact ih found
  | case3 rest letter =>
    rw [arguments, if_neg letter, if_pos rfl] at found
    cases found
    exact ⟨by simp, .inr ⟨rest, rfl⟩, rfl⟩
  | case4 c rest letter notHash none_ =>
    rw [arguments, if_neg letter, if_neg notHash] at found
    split at found
    · cases found
    · next scan =>
      rw [none_] at scan
      cases scan
  | case5 c rest letter notHash a after scan ih =>
    rw [arguments, if_neg letter, if_neg notHash] at found
    split at found
    · cases found
    · next scan' =>
      rw [scan] at scan'
      cases scan'
      obtain ⟨⟨others, comment'⟩, later, same⟩ := Option.map_eq_some_iff.mp found
      cases same
      obtain ⟨reads, shape, text⟩ := ih later
      have space : isArgumentSpace c = false := by simpa using letter
      obtain ⟨more, raw⟩ := scanWord_some space scan
      obtain ⟨parts, ends⟩ := scanWord_split scan
      have alone := scanWord_moved scan (.inl rfl)
      rw [List.append_nil] at alone
      refine ⟨List.forall_mem_cons.mpr ⟨⟨⟨c, more, raw, space, notHash⟩, alone⟩, reads⟩, shape, ?_⟩
      rw [parts, List.flatMap_cons, List.append_assoc, ← text]
      cases after with
      | nil => rw [List.append_nil, words_nil, List.append_nil]
      | cons b after =>
        have blank := white (ends b rfl)
        rw [words_append blank, words_separator blank]

/-! ## Arguments joined anew -/

/-- Every argument that something stands behind is closed. -/
def ClosedBefore (more : Bool) : List Argument → Prop
  | [] => True
  | a :: others => ((!others.isEmpty || more) = true → a.Closed) ∧ ClosedBefore more others

/-- A text in which ssh reads nothing behind an argument: it is empty, or a blank comes first. -/
def ReadsNothing (tail : List Char) : Prop :=
  tail = [] ∨ ∃ c rest, tail = c :: rest ∧ isArgumentSpace c = true ∧ argvSplit rest = some []

theorem ReadsNothing.argvSplitFrom {tail : List Char} (nothing : ReadsNothing tail) :
    OpenSsh.argvSplitFrom none tail = some [] := by
  obtain rfl | ⟨c, rest, rfl, blank, none_⟩ := nothing
  · simp [OpenSsh.argvSplitFrom]
  · rw [OpenSsh.argvSplitFrom, if_pos ⟨rfl, blank⟩]
    exact none_

/-- The texts of arguments joined with blanks are read as them. -/
theorem argvSplit_joined {args : List Argument} (reads : ∀ a ∈ args, a.Reads) {remark : List (List Char)}
    (comment : remark = [] ∨ ∃ rest, remark.head? = some ('#' :: rest)) {tail : List Char} (behind : ReadsNothing tail)
    (closed : ClosedBefore (!remark.isEmpty || !tail.isEmpty) args) :
    argvSplit ([' '].intercalate (args.map Argument.raw ++ remark) ++ tail) = some (args.map Argument.value) := by
  rw [argvSplit]
  induction args with
  | nil =>
    obtain rfl | ⟨rest, head⟩ := comment
    · -- after the last argument only blanks or a comment follow
      exact behind.argvSplitFrom
    · obtain ⟨others, rfl⟩ := List.head?_eq_some_iff.mp head
      have starts : ∃ text, [' '].intercalate (('#' :: rest) :: others) = '#' :: text := by
        cases others with
        | nil => exact ⟨rest, by simp [List.intercalate]⟩
        | cons next more => exact ⟨_, by rw [List.intercalate_cons_cons]; rfl⟩
      obtain ⟨text, same⟩ := starts
      rw [List.map_nil, List.nil_append, same, List.cons_append, argvSplitFrom]
      simp [isArgumentSpace]
  | cons a others ih =>
    obtain ⟨⟨⟨c, more, raw, space, notHash⟩, alone⟩, later⟩ := List.forall_mem_cons.mp reads
    obtain ⟨closedHere, closedLater⟩ := closed
    have letter : ¬ isArgumentSpace c = true := by simp [space]
    have rest := ih later closedLater
    rw [List.map_cons, List.cons_append]
    cases pieces : others.map Argument.raw ++ remark with
    | nil =>
      obtain ⟨none_, rfl⟩ := List.append_eq_nil_iff.mp pieces
      obtain rfl := List.map_eq_nil_iff.mp none_
      have scan : scanWord none (a.raw ++ tail) = some (a, tail) := by
        obtain rfl | ⟨b, rest, rfl, blank, _⟩ := behind
        · rw [List.append_nil, alone]
        · exact scanWord_moved (closedHere (by simp) b blank) (.inr rfl)
      rw [List.intercalate_singleton]
      rw [raw] at scan ⊢
      rw [List.cons_append, argvSplitFrom_start letter notHash, ← List.cons_append, scan, Option.bind_some]
      simp only [behind.argvSplitFrom, Option.map_some, List.map_cons, List.map_nil]
    | cons piece pieces' =>
      -- another piece follows, so the argument must end at the blank that is put there
      have something : (!others.isEmpty || (!remark.isEmpty || !tail.isEmpty)) = true := by
        cases others with
        | cons _ _ => rfl
        | nil =>
          rw [List.map_nil, List.nil_append] at pieces
          rw [pieces]
          rfl
      rw [pieces] at rest
      rw [List.intercalate_cons_cons, List.append_assoc, List.append_assoc, List.singleton_append]
      have scan : scanWord none (a.raw ++ ' ' :: ([' '].intercalate (piece :: pieces') ++ tail)) =
          some (a, ' ' :: ([' '].intercalate (piece :: pieces') ++ tail)) :=
        scanWord_moved (closedHere something ' ' rfl) (.inr rfl)
      rw [raw] at scan ⊢
      rw [List.cons_append, argvSplitFrom_start letter notHash, ← List.cons_append, scan, Option.bind_some]
      have skip : argvSplitFrom none (' ' :: ([' '].intercalate (piece :: pieces') ++ tail)) =
          argvSplitFrom none ([' '].intercalate (piece :: pieces') ++ tail) := by
        rw [argvSplitFrom]
        simp [isArgumentSpace]
      simp only [skip, rest, Option.map_some, List.map_cons]

/-! ## The arguments of a line -/

/-- The first token behind the indentation, and the text after it. -/
def firstToken (line : List Char) : Option (List Char × Option (List Char)) :=
  match strdelim line with
  | some ([], some rest) => strdelim rest
  | found => found

/-- The keyword of a line and the text its arguments are split from. -/
def settingText (line : List Char) : Option (List Char × List Char) :=
  (firstToken (line.rdropWhile isLineEnd)).bind fun (keyword, rest) =>
    if keyword = [] ∨ keyword.head? = some '#' then none
    else some (keyword, (rest.getD []).dropWhile isDelimiterSpace)

theorem readLine_settingText (line : List Char) : readLine line =
    match settingText line with
    | none => .nothing
    | some (keyword, text) => .setting keyword (argvSplit text) := by
  have setting (keyword : List Char) (rest : Option (List Char)) : readSetting keyword rest =
      match (if keyword = [] ∨ keyword.head? = some '#' then none
        else some (keyword, (rest.getD []).dropWhile isDelimiterSpace) : Option (List Char × List Char)) with
      | none => .nothing
      | some (keyword, text) => .setting keyword (argvSplit text) := by
    unfold readSetting
    split <;> rfl
  unfold readLine settingText
  split
  · next found => simp [firstToken, found]
  · next found => simp [firstToken, found]
  · next rest found =>
    have second : firstToken (line.rdropWhile isLineEnd) = strdelim rest := by rw [firstToken, found]
    rw [second]
    cases strdelim rest with
    | none => rfl
    | some token => exact setting token.1 token.2
  · next keyword rest _ indented found =>
    have first : firstToken (line.rdropWhile isLineEnd) = some (keyword, rest) := by
      unfold firstToken
      rw [found]
      split
      · next indent =>
        cases indent
        exact (indented _ rfl rfl).elim
      · rfl
    rw [first]
    exact setting keyword rest

end Sshelter.Config.OpenSsh
