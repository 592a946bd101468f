import Sshelter.Sync.HostsFile
import Sshelter.Config.OpenSshReader

/-! # An accepted host text is read by OpenSSH as by the parser

Two tokenizers with different ideas of whitespace, comments, quotes and `=` meet on the
same text.  The checks of `validate_host_text` leave only lines on which they agree: where
OpenSSH reads a line, its whitespace is the blank and the tab (and one final carriage
return), so keyword and separator end where the parser's end; and on the lines whose
arguments matter, what OpenSSH reads holds no quote and no escape, so its words are the
runs between blanks.
-/

namespace Sshelter.Sync.HostsFile

open Text Config

/-! ## Characters -/

theorem isWhitespace_of_isDelimiterSpace {c : Char} (h : OpenSsh.isDelimiterSpace c = true) :
    isWhitespace c = true := by
  simp only [OpenSsh.isDelimiterSpace, Bool.or_eq_true, decide_eq_true_eq] at h
  rcases h with ((rfl | rfl) | rfl) | rfl <;> rfl

theorem not_isDelimiterSpace {c : Char} (h : isWhitespace c = false) :
    OpenSsh.isDelimiterSpace c = false := by
  apply Bool.eq_false_iff.mpr
  intro hdelim
  rw [isWhitespace_of_isDelimiterSpace hdelim] at h
  cases h

theorem isWhitespace_of_isLineEnd {c : Char} (h : OpenSsh.isLineEnd c = true) :
    isWhitespace c = true := by
  simp only [OpenSsh.isLineEnd, Bool.or_eq_true, decide_eq_true_eq] at h
  rcases h with h | rfl
  · exact isWhitespace_of_isDelimiterSpace h
  · rfl

theorem isWhitespace_of_isAsciiWhitespace {c : Char} (h : isAsciiWhitespace c = true) :
    isWhitespace c = true := by
  simp only [isAsciiWhitespace, Bool.decide_or, Bool.or_eq_true, decide_eq_true_eq] at h
  rcases h with rfl | rfl | rfl | rfl | rfl <;> rfl

/-- The only whitespace that is not refused is the blank and the tab. -/
theorem isBlank_of_visible {c : Char} (hspace : isWhitespace c = true)
    (hvisible : isInvisible c = false) : isBlank c = true := by
  simp only [isInvisible, Bool.or_eq_false_iff] at hvisible
  obtain ⟨⟨⟨⟨hconfusable, -⟩, -⟩, -⟩, hcontrol⟩ := hvisible
  simp only [isConfusableSpace, hspace, Bool.and_true, Bool.or_eq_false_iff, Bool.not_eq_false',
    isAscii, decide_eq_true_eq] at hconfusable
  have hascii : c.toNat < 128 := hconfusable.1
  simp only [isControl, Bool.and_eq_false_iff, Bool.or_eq_false_iff, bne_eq_false_iff_eq,
    decide_eq_false_iff_not] at hcontrol
  rcases hcontrol with ⟨hlow, -⟩ | rfl
  · have h32 : c.toNat = 32 := by
      simp only [isWhitespace, Bool.or_eq_true, Bool.and_eq_true, beq_iff_eq,
        decide_eq_true_eq] at hspace
      omega
    have : c = ' ' := by
      apply Char.ext
      apply UInt32.toNat_inj.mp
      exact h32
    subst this
    rfl
  · rfl

theorem isDelimiterSpace_of_isBlank {c : Char} (h : isBlank c = true) :
    OpenSsh.isDelimiterSpace c = true := by
  simp only [isBlank, Bool.or_eq_true, decide_eq_true_eq] at h
  rcases h with rfl | rfl <;> rfl

theorem endsLine_eq_isLineEnd : endsLine = OpenSsh.isLineEnd := by
  funext c
  simp [endsLine, OpenSsh.isLineEnd, OpenSsh.isDelimiterSpace]

/-! ## Lines -/

theorem readLines_append_newline (s : List Char) :
    OpenSsh.readLines (s ++ ['\n']) = s.splitOnP (· = '\n') := by
  induction s with
  | nil => rfl
  | cons c rest ih =>
    rw [List.cons_append, OpenSsh.readLines, ih, List.splitOnP_cons_eq_if_modifyHead]
    by_cases hc : c = '\n'
    · simp [hc]
    · simp only [hc, if_false, decide_false, Bool.false_eq_true]
      cases hsplit : rest.splitOnP (· = '\n') with
      | nil => exact absurd hsplit (List.splitOnP_ne_nil _ _)
      | cons line lines => rfl

theorem readLines_of_no_newline_at_end {s : List Char} (hs : s ≠ []) (hlast : s.getLast? ≠ some '\n') :
    OpenSsh.readLines s = s.splitOnP (· = '\n') := by
  induction s with
  | nil => exact absurd rfl hs
  | cons c rest ih =>
    rw [OpenSsh.readLines, List.splitOnP_cons_eq_if_modifyHead]
    cases rest with
    | nil =>
      have hc : c ≠ '\n' := by simpa using hlast
      simp [hc, OpenSsh.readLines]
    | cons d more =>
      have hrest := ih (by simp) (by simpa using hlast)
      rw [hrest]
      by_cases hc : c = '\n'
      · simp [hc]
      · simp only [hc, if_false, decide_false, Bool.false_eq_true]
        cases hsplit : (d :: more).splitOnP (· = '\n') with
        | nil => exact absurd hsplit (List.splitOnP_ne_nil _ _)
        | cons line lines => rfl

/-- The parser and OpenSSH see the same lines. -/
theorem parseFile_lines (u : UnicodeTables) (text : List Char) :
    (parseFile u text).1 = groupBlocks ((OpenSsh.readLines text).map (flatItem u)) := by
  unfold parseFile
  cases htext : text.isEmpty with
  | true =>
    have : text = [] := List.isEmpty_iff.mp htext
    subst this
    simp [OpenSsh.readLines]
  | false =>
    have hne : text ≠ [] := by simpa using htext
    simp only [Bool.false_eq_true, if_false]
    by_cases hlast : text.getLast? = some '\n'
    · have hsplit : text = text.dropLast ++ ['\n'] := (List.dropLast_append_getLast? _ hlast).symm
      have hlines : OpenSsh.readLines text = text.dropLast.splitOnP (· = '\n') := by
        rw [hsplit, readLines_append_newline, List.dropLast_concat]
      simp [hlast, hlines]
    · simp [hlast, readLines_of_no_newline_at_end hne hlast]

/-! ## Blocks -/

/-- An item as the lexer makes it, before grouping. -/
def IsFlat : Item → Prop
  | .Host .. => False
  | .Match .. => False
  | _ => True

theorem flatItem_isFlat (u : UnicodeTables) (line : List Char) : IsFlat (flatItem u line) := by
  unfold flatItem
  cases classifyLine u line <;> trivial

/-- A file that is one Host block starts with its header, and no other line is one. -/
theorem groupBlocks_eq_host {flat : List Item} (hflat : ∀ item ∈ flat, IsFlat item)
    {header : Directive} {patterns : List (List Char)} {body : List Item}
    (h : groupBlocks flat = [.Host header patterns body]) :
    flat = .Directive header :: body ∧ header.key = "host".toList ∧
      patterns = words isWhitespace header.value ∧ ∀ item ∈ body, headerKind item = none := by
  cases flat with
  | nil =>
    rw [groupBlocks] at h
    cases h
  | cons item rest =>
    rw [groupBlocks] at h
    -- an item above the first header would be left standing before the block
    cases hkind : headerKind item with
    | none =>
      rw [hkind] at h
      obtain ⟨rfl, -⟩ := List.cons.inj h
      exact absurd (hflat _ List.mem_cons_self) id
    | some found =>
      obtain ⟨kind, head⟩ := found
      rw [hkind] at h
      obtain ⟨hblock, hnone⟩ := List.cons.inj h
      have hdrop : rest.dropWhile (fun next => (headerKind next).isNone) = [] := by
        cases hd : rest.dropWhile (fun next => (headerKind next).isNone) with
        | nil => rfl
        | cons first others =>
          rw [hd, groupBlocks] at hnone
          split at hnone <;> cases hnone
      have hall : ∀ next ∈ rest, (headerKind next).isNone = true := by
        simpa using hdrop
      have htake : rest.takeWhile (fun next => (headerKind next).isNone) = rest :=
        List.takeWhile_eq_self_iff.mpr hall
      rw [htake] at hblock
      cases kind with
      | Match => cases hblock
      | Host =>
        cases hblock
        cases item with
        | Directive d =>
          simp only [headerKind] at hkind
          split at hkind
          next hkey =>
            cases hkind
            exact ⟨rfl, hkey, rfl, fun next hn => by simpa using hall next hn⟩
          next =>
            split at hkind <;> cases hkind
        | _ => cases hkind

/-! ## The parts of a directive line -/

theorem takeSeparator_append (sawEq : Bool) (s : List Char) :
    (takeSeparator sawEq s).1 ++ (takeSeparator sawEq s).2.2 = s := by
  induction s generalizing sawEq with
  | nil => rfl
  | cons c rest ih =>
    unfold takeSeparator
    split
    · simp [ih]
    · split
      · simp [ih]
      · rfl

theorem takeSeparator_sep {sawEq : Bool} {s : List Char} {c : Char}
    (hc : c ∈ (takeSeparator sawEq s).1) : isWhitespace c = true ∨ c = '=' := by
  induction s generalizing sawEq with
  | nil => cases hc
  | cons d rest ih =>
    unfold takeSeparator at hc
    split at hc
    next heq =>
      rcases List.mem_cons.mp hc with rfl | hc
      · exact .inr heq.1
      · exact ih hc
    next =>
      split at hc
      next hspace =>
        rcases List.mem_cons.mp hc with rfl | hc
        · exact .inl hspace
        · exact ih hc
      next => cases hc

/-- A separator that starts with whitespace or `=` is not empty. -/
theorem takeSeparator_head {c : Char} {rest : List Char} (hc : isWhitespace c = true ∨ c = '=') :
    c ∈ (takeSeparator false (c :: rest)).1 := by
  unfold takeSeparator
  by_cases heq : c = '='
  · simp [heq]
  · simp [heq, hc.resolve_right heq]

theorem splitAtComment_append (inDquote : Bool) (s : List Char) :
    (splitAtComment inDquote s).1 ++ (splitAtComment inDquote s).2.getD [] = s := by
  induction s generalizing inDquote with
  | nil => rfl
  | cons c rest ih =>
    unfold splitAtComment
    split
    · rfl
    · simp [ih]

/-- Value, trailing whitespace and comment are the whole text after the separator. -/
theorem splitValueComment_append (s : List Char) :
    (splitValueComment s).1 ++ (splitValueComment s).2.1 ++ (splitValueComment s).2.2.getD [] = s := by
  have hsplit := splitAtComment_append false s
  unfold splitValueComment
  split
  next before heq =>
    rw [heq] at hsplit
    simpa [trimEnd, List.rdropWhile_append_rtakeWhile] using hsplit
  next before comment heq =>
    rw [heq] at hsplit
    rw [List.append_nil, Option.getD_some, ← List.append_assoc, trimEnd,
      List.rdropWhile_append_rtakeWhile]
    exact hsplit

/-- How a directive sits in its line. -/
structure Laid (u : UnicodeTables) (line : List Char) (d : Directive) : Prop where
  raw : d.raw = line
  clean : d.dirty = false
  key : d.key = lowercase u d.keyword
  indent : ∀ c ∈ d.indent, isWhitespace c = true
  keyword : ∀ c ∈ d.keyword, isWhitespace c = false ∧ c ≠ '='
  notComment : d.keyword.head? ≠ some '#'
  line_eq : line = d.indent ++ (d.keyword ++ (d.separator.text ++ d.rest))
  separator : ∀ c ∈ d.separator.text, isWhitespace c = true ∨ c = '='
  separator_head : ∀ c, (d.separator.text ++ d.rest).head? = some c → c ∈ d.separator.text
  taken : (takeSeparator false (d.separator.text ++ d.rest)).1 = d.separator.text ∧
    (takeSeparator false (d.separator.text ++ d.rest)).2.2 = d.rest

theorem classifyLine_laid {u : UnicodeTables} {line : List Char} {d : Directive}
    (h : classifyLine u line = .Directive d) : Laid u line d := by
  unfold classifyLine at h
  split at h
  · cases h
  dsimp only at h
  split at h
  · cases h
  next hall hcomment =>
    set trimmed := line.dropWhile isWhitespace with htrimmed
    set kw := trimmed.takeWhile fun c => !(isWhitespace c || decide (c = '=')) with hkw
    set afterKw := trimmed.dropWhile fun c => !(isWhitespace c || decide (c = '=')) with hafter
    cases h
    have hrest := splitValueComment_append (takeSeparator false afterKw).2.2
    have hsep : (if (takeSeparator false afterKw).2.1 = true
        then Separator.Equals (takeSeparator false afterKw).1
        else Separator.Space (takeSeparator false afterKw).1).text
        = (takeSeparator false afterKw).1 := by
      split <;> rfl
    have hjoin := takeSeparator_append false afterKw
    have hboth : (takeSeparator false afterKw).1 ++
        ((splitValueComment (takeSeparator false afterKw).2.2).1 ++
          (splitValueComment (takeSeparator false afterKw).2.2).2.1 ++
          (splitValueComment (takeSeparator false afterKw).2.2).2.2.getD []) = afterKw := by
      rw [hrest, hjoin]
    have hkeyword : ∀ c ∈ kw, isWhitespace c = false ∧ c ≠ '=' := by
      intro c hc
      have := List.mem_takeWhile_imp hc
      simpa using this
    refine
      { raw := rfl, clean := rfl, key := rfl
        indent := fun c hc => List.mem_takeWhile_imp hc
        keyword := hkeyword
        notComment := ?_, line_eq := ?_, separator := ?_, separator_head := ?_, taken := ?_ }
    · show kw.head? ≠ some '#'
      intro hhead
      apply hcomment
      rw [← hhead, hkw]
      cases htrim : trimmed with
      | nil => rfl
      | cons c rest =>
        rw [hkw, htrim] at hhead
        simp only [List.takeWhile_cons] at hhead ⊢
        split at hhead
        next hc => simp [hc]
        next => cases hhead
    · show line = line.takeWhile isWhitespace ++ (kw ++ (Separator.text _ ++ Directive.rest _))
      simp only [Directive.rest, hsep]
      rw [hboth, hkw, hafter, List.takeWhile_append_dropWhile, htrimmed,
        List.takeWhile_append_dropWhile]
    · intro c hc
      simp only [hsep] at hc
      exact takeSeparator_sep hc
    · intro c hc
      simp only [Directive.rest, hsep] at hc ⊢
      rw [hboth] at hc
      cases hcons : afterKw with
      | nil => rw [hcons] at hc; cases hc
      | cons first more =>
        rw [hcons] at hc
        cases hc
        apply takeSeparator_head
        -- the keyword ended here because of this character
        have hstop := List.head?_dropWhile_not (fun c => !(isWhitespace c || decide (c = '=')))
          trimmed
        rw [← hafter, hcons] at hstop
        have hstop : isWhitespace c = false → c = '=' := by simpa using hstop
        cases hspace : isWhitespace c with
        | true => exact .inl rfl
        | false => exact .inr (hstop hspace)
    · simp only [Directive.rest, hsep]
      rw [hboth, hrest]
      exact ⟨rfl, rfl⟩

/-! ## What OpenSSH reads of a line -/

/-- Where the parser sees whitespace in the part of the line up to the value, OpenSSH does
too. -/
def SpacedAlike (d : Directive) : Prop :=
  ∀ c ∈ d.indent ++ (d.keyword ++ d.separator.text), isWhitespace c = true →
    OpenSsh.isDelimiterSpace c = true

theorem takeWhile_append_stop {p : Char → Bool} {s t : List Char} (hs : ∀ c ∈ s, p c = true)
    (ht : ∀ c, t.head? = some c → p c = false) : (s ++ t).takeWhile p = s := by
  rw [List.takeWhile_append_of_pos hs]
  cases t with
  | nil => simp
  | cons c rest => simp [ht c rfl]

theorem dropWhile_append_stop {p : Char → Bool} {s t : List Char} (hs : ∀ c ∈ s, p c = true)
    (ht : ∀ c, t.head? = some c → p c = false) : (s ++ t).dropWhile p = t := by
  rw [List.dropWhile_append_of_pos hs]
  cases t with
  | nil => rfl
  | cons c rest => simp [ht c rfl]

/-- A plain token followed by whitespace, `=` or nothing is taken off whole. -/
theorem strdelim_token {token tail : List Char}
    (htoken : ∀ c ∈ token, isWhitespace c = false ∧ c ≠ '=' ∧ c ≠ '"')
    (htail : ∀ c, tail.head? = some c → OpenSsh.isDelimiterSpace c = true ∨ c = '=') :
    OpenSsh.strdelim (token ++ tail) =
      some (token, if tail = [] then none else some (OpenSsh.skipSeparator tail)) := by
  have hin : ∀ c ∈ token, (!(OpenSsh.isDelimiterSpace c || decide (c = '"') || decide (c = '='))) = true := by
    intro c hc
    obtain ⟨hspace, heq, hquote⟩ := htoken c hc
    simp [not_isDelimiterSpace hspace, heq, hquote]
  have hout : ∀ c, tail.head? = some c →
      (!(OpenSsh.isDelimiterSpace c || decide (c = '"') || decide (c = '='))) = false := by
    intro c hc
    rcases htail c hc with h | h <;> simp [h]
  simp only [OpenSsh.strdelim, takeWhile_append_stop hin hout, dropWhile_append_stop hin hout]
  cases tail with
  | nil => simp
  | cons c rest =>
    have hquote : c ≠ '"' := by
      rintro rfl
      rcases htail _ rfl with h | h <;> revert h <;> decide
    split
    next heq => cases heq
    next heq => cases heq; exact absurd rfl hquote
    next => simp

/-- Indentation comes off as an empty token. -/
theorem strdelim_indent {indent s : List Char} (hne : indent ≠ [])
    (hindent : ∀ c ∈ indent, OpenSsh.isDelimiterSpace c = true)
    (hs : ∀ c, s.head? = some c → OpenSsh.isDelimiterSpace c = false ∧ c ≠ '=') :
    OpenSsh.strdelim (indent ++ s) = some ([], some s) := by
  have hskip : OpenSsh.skipSeparator (indent ++ s) = s := by
    unfold OpenSsh.skipSeparator
    rw [dropWhile_append_stop hindent fun c hc => (hs c hc).1]
    split
    next => exact absurd rfl (hs '=' rfl).2
    next => rfl
  have htoken := @strdelim_token [] (indent ++ s) (by simp) (by
    intro c hc
    obtain ⟨first, others, rfl⟩ := List.exists_cons_of_ne_nil hne
    cases hc
    exact .inl (hindent _ List.mem_cons_self))
  rw [List.nil_append, if_neg (by simp [hne]), hskip] at htoken
  exact htoken

/-- The line without its end, and the keyword and what follows it in there. -/
theorem rdropWhile_laid {u : UnicodeTables} {line : List Char} {d : Directive} (hl : Laid u line d)
    (hkw : d.keyword ≠ []) :
    line.rdropWhile OpenSsh.isLineEnd =
      d.indent ++ (d.keyword ++ (d.separator.text ++ d.rest).rdropWhile OpenSsh.isLineEnd) := by
  have hlast : OpenSsh.isLineEnd (d.keyword.getLast hkw) = false := by
    apply Bool.eq_false_iff.mpr
    intro h
    have hspace := isWhitespace_of_isLineEnd h
    rw [(hl.keyword _ (List.getLast_mem hkw)).1] at hspace
    cases hspace
  have hne : d.indent ++ d.keyword ≠ [] := by simp [hkw]
  rw [hl.line_eq, ← List.append_assoc, rdropWhile_append_of_not hne ?_, List.append_assoc]
  rw [List.getLast_append_of_ne_nil _ hkw]
  exact hlast

/-- OpenSSH reads the parser's keyword, and as arguments what it makes of the text after the
separator. -/
theorem readLine_laid {u : UnicodeTables} {line : List Char} {d : Directive} (hl : Laid u line d)
    (hspaced : SpacedAlike d) (hkw : d.keyword ≠ []) (hquote : '"' ∉ d.keyword) :
    OpenSsh.readLine line = .setting d.keyword (OpenSsh.argvSplit
      ((OpenSsh.skipSeparator ((d.separator.text ++ d.rest).rdropWhile OpenSsh.isLineEnd)).dropWhile
        OpenSsh.isDelimiterSpace)) := by
  set tail := (d.separator.text ++ d.rest).rdropWhile OpenSsh.isLineEnd with htail
  have hline : line.rdropWhile OpenSsh.isLineEnd = d.indent ++ (d.keyword ++ tail) :=
    rdropWhile_laid hl hkw
  have htoken : ∀ c ∈ d.keyword, isWhitespace c = false ∧ c ≠ '=' ∧ c ≠ '"' := by
    intro c hc
    refine ⟨(hl.keyword c hc).1, (hl.keyword c hc).2, ?_⟩
    rintro rfl
    exact hquote hc
  have hhead : ∀ c, tail.head? = some c → OpenSsh.isDelimiterSpace c = true ∨ c = '=' := by
    intro c hc
    have hin : c ∈ d.separator.text := by
      apply hl.separator_head
      obtain ⟨more, hmore⟩ := List.rdropWhile_prefix OpenSsh.isLineEnd (d.separator.text ++ d.rest)
      rw [← hmore, ← htail, List.head?_append, hc]
      rfl
    rcases hl.separator c hin with hspace | heq
    · exact .inl (hspaced c (by simp [hin]) hspace)
    · exact .inr heq
  have htake := strdelim_token htoken hhead
  have hset : OpenSsh.readSetting d.keyword
      (if tail = [] then none else some (OpenSsh.skipSeparator tail)) =
      .setting d.keyword (OpenSsh.argvSplit
        ((OpenSsh.skipSeparator tail).dropWhile OpenSsh.isDelimiterSpace)) := by
    unfold OpenSsh.readSetting
    rw [if_neg (by simp [hkw, hl.notComment])]
    by_cases hnil : tail = []
    · simp [hnil, OpenSsh.skipSeparator]
    · simp [hnil]
  obtain ⟨first, others, hcons⟩ := List.exists_cons_of_ne_nil hkw
  unfold OpenSsh.readLine
  rw [hline]
  cases hindent : d.indent with
  | nil =>
    rw [List.nil_append, htake]
    rw [hcons] at hset ⊢
    exact hset
  | cons c more =>
    -- the indentation is the empty first token; the second one is the keyword
    have hspaces : ∀ x ∈ c :: more, OpenSsh.isDelimiterSpace x = true := by
      intro x hx
      rw [← hindent] at hx
      exact hspaced x (by simp [hx]) (hl.indent x hx)
    have hfirst : ∀ x, (d.keyword ++ tail).head? = some x →
        OpenSsh.isDelimiterSpace x = false ∧ x ≠ '=' := by
      intro x hx
      rw [hcons] at hx
      cases hx
      obtain ⟨hspace, heq⟩ := hl.keyword first (by simp [hcons])
      exact ⟨not_isDelimiterSpace hspace, heq⟩
    rw [strdelim_indent (by simp) hspaces hfirst]
    dsimp only
    rw [htake]
    exact hset

/-! ## Blank lines and comments -/

theorem mem_stripCr {line : List Char} {c : Char} (hc : c ∈ line) : c ∈ stripCr line ∨ c = '\r' := by
  unfold stripCr
  split
  next hlast =>
    rw [← List.dropLast_append_getLast? _ hlast] at hc
    rcases List.mem_append.mp hc with hc | hc
    · exact .inl hc
    · exact .inr (List.mem_singleton.mp hc)
  next => exact .inl hc

theorem mem_of_mem_stripCr {line : List Char} {c : Char} (hc : c ∈ stripCr line) : c ∈ line := by
  unfold stripCr at hc
  split at hc
  · exact List.mem_of_mem_dropLast hc
  · exact hc

theorem stripCr_append {s t : List Char} (ht : t ≠ []) : stripCr (s ++ t) = s ++ stripCr t := by
  unfold stripCr
  rw [List.getLast?_append_of_ne_nil _ ht]
  split
  · rw [List.dropLast_append_of_ne_nil ht]
  · rfl

/-- A line of blanks and a line end is nothing to OpenSSH. -/
theorem readLine_blank {u : UnicodeTables} {line : List Char} (h : classifyLine u line = .Blank)
    (hvisible : invisibleOutsideComment line = false) : OpenSsh.readLine line = .nothing := by
  have hspaces : ∀ c ∈ line, isWhitespace c = true := by
    unfold classifyLine at h
    split at h
    next hall => simpa using hall
    next =>
      dsimp only at h
      split at h <;> cases h
  have hends : ∀ c ∈ line, OpenSsh.isLineEnd c = true := by
    intro c hc
    rcases mem_stripCr hc with hin | rfl
    · have hnone : ∀ x ∈ stripCr line, (x != '#') = true := by
        intro x hx
        have hspace := hspaces x (mem_of_mem_stripCr hx)
        apply bne_iff_ne.mpr
        rintro rfl
        revert hspace
        decide
      have htake : (stripCr line).takeWhile (· != '#') = stripCr line :=
        List.takeWhile_eq_self_iff.mpr hnone
      rw [invisibleOutsideComment, htake] at hvisible
      have hc' : isInvisible c = false := by
        apply Bool.eq_false_iff.mpr
        intro hi
        have := List.any_eq_false.mp hvisible c hin
        exact this hi
      have hblank := isDelimiterSpace_of_isBlank (isBlank_of_visible (hspaces c hc) hc')
      simp [OpenSsh.isLineEnd, hblank]
    · rfl
  unfold OpenSsh.readLine
  rw [List.rdropWhile_eq_nil_iff.mpr hends]
  rfl

/-- A token that starts with `#` starts a comment, whatever follows. -/
theorem strdelim_comment (s : List Char) :
    OpenSsh.strdelim ('#' :: s) = none ∨
      ∃ token rest, OpenSsh.strdelim ('#' :: s) = some ('#' :: token, rest) := by
  have hhash : (!(OpenSsh.isDelimiterSpace '#' || decide ('#' = '"') || decide ('#' = '='))) = true := by
    decide
  unfold OpenSsh.strdelim
  simp only [List.takeWhile_cons, List.dropWhile_cons, hhash, if_true]
  split
  · exact .inr ⟨_, _, rfl⟩
  · split
    · exact .inl rfl
    · exact .inr ⟨_, _, rfl⟩
  · exact .inr ⟨_, _, rfl⟩

theorem classifyLine_comment {u : UnicodeTables} {line : List Char}
    (h : classifyLine u line = .Comment) :
    ∃ more, line = line.takeWhile isWhitespace ++ '#' :: more := by
  unfold classifyLine at h
  split at h
  · cases h
  dsimp only at h
  split at h
  next hhash =>
    cases hdrop : line.dropWhile isWhitespace with
    | nil => rw [hdrop] at hhash; cases hhash
    | cons c more =>
      rw [hdrop] at hhash
      cases hhash
      refine ⟨more, ?_⟩
      rw [← hdrop, List.takeWhile_append_dropWhile]
  next => cases h

theorem readLine_comment {u : UnicodeTables} {line : List Char} (h : classifyLine u line = .Comment)
    (hvisible : invisibleOutsideComment line = false) : OpenSsh.readLine line = .nothing := by
  obtain ⟨more, hline⟩ := classifyLine_comment h
  set indent := line.takeWhile isWhitespace with hindent
  have hspaces : ∀ c ∈ indent, isWhitespace c = true := fun c hc => List.mem_takeWhile_imp hc
  have hdelims : ∀ c ∈ indent, OpenSsh.isDelimiterSpace c = true := by
    intro c hc
    apply isDelimiterSpace_of_isBlank
    apply isBlank_of_visible (hspaces c hc)
    have hbefore : ∀ x ∈ indent, (x != '#') = true := by
      intro x hx
      have hspace := hspaces x hx
      apply bne_iff_ne.mpr
      rintro rfl
      revert hspace
      decide
    have hin : c ∈ (stripCr line).takeWhile (· != '#') := by
      rw [hline, stripCr_append (by simp), List.takeWhile_append_of_pos hbefore]
      exact List.mem_append_left _ hc
    apply Bool.eq_false_iff.mpr
    exact List.any_eq_false.mp hvisible c hin
  -- the end of the line is cut off first, and the comment sign stays
  have hend : line.rdropWhile OpenSsh.isLineEnd = indent ++ ('#' :: more.rdropWhile OpenSsh.isLineEnd) := by
    have hsplit : line = (indent ++ ['#']) ++ more := by simp [← hline]
    have hlast : OpenSsh.isLineEnd ((indent ++ ['#']).getLast (by simp)) = false := by
      rw [List.getLast_append_singleton]
      decide
    rw [hsplit, rdropWhile_append_of_not (by simp) hlast]
    simp
  have hsetting : ∀ token rest, OpenSsh.readSetting ('#' :: token) rest = .nothing := by
    intro token rest
    simp [OpenSsh.readSetting]
  unfold OpenSsh.readLine
  rw [hend]
  set tail := more.rdropWhile OpenSsh.isLineEnd
  cases hi : indent with
  | nil =>
    rw [List.nil_append]
    rcases strdelim_comment tail with hnone | ⟨token, rest, hsome⟩
    · rw [hnone]
    · rw [hsome]
      exact hsetting token rest
  | cons c others =>
    rw [hi] at hdelims
    rw [strdelim_indent (by simp) hdelims (by intro x hx; cases hx; decide)]
    dsimp only
    rcases strdelim_comment tail with hnone | ⟨token, rest, hsome⟩
    · rw [hnone]
    · rw [hsome]
      exact hsetting token rest

/-! ## Where OpenSSH looks, nothing is hidden -/

theorem mem_upTo {s : List Char} {position : Option Nat} {c : Char} {n : Nat}
    (hn : ∀ i, position = some i → n ≤ i) (hc : c ∈ s.take n) : c ∈ upTo s position := by
  unfold upTo
  cases position with
  | none =>
    rw [Option.getD_none, List.take_length]
    exact List.mem_of_mem_take hc
  | some i =>
    rw [Option.getD_some]
    exact (List.take_subset_take_left s (hn i rfl)) hc

theorem stripCr_prefix (line : List Char) : stripCr line <+: line := by
  unfold stripCr
  split
  · exact List.dropLast_prefix line
  · exact List.prefix_refl line

theorem opensshCommentOffset_eq_some {d : Directive} {line : List Char} {i : Nat}
    (h : opensshCommentOffset d line = some i) :
    afterSeparator d ≤ line.length ∧ afterSeparator d ≤ i := by
  unfold opensshCommentOffset at h
  split at h
  · cases h
  dsimp only at h
  split at h
  · cases h
  next hlong =>
    obtain ⟨at_, -, rfl⟩ := Option.map_eq_some_iff.mp h
    omega

/-- Up to the value every character is looked at, except a final carriage return. -/
theorem spacedAlike_of_visible {u : UnicodeTables} {line : List Char} {d : Directive}
    (hl : Laid u line d) (hvisible : hasInvisibleCharacter d = false) : SpacedAlike d := by
  intro c hc hspace
  have hline : line = (d.indent ++ (d.keyword ++ d.separator.text)) ++ d.rest := by
    rw [hl.line_eq]
    simp
  have hlength : (d.indent ++ (d.keyword ++ d.separator.text)).length = afterSeparator d := by
    simp [afterSeparator, Nat.add_assoc]
  have hrender : renderDirective d = line := by simp [renderDirective, hl.clean, hl.raw]
  have hseen : c ∈ upTo (stripCr line) (opensshCommentOffset d (stripCr line)) ∨ c = '\r' := by
    cases hoffset : opensshCommentOffset d (stripCr line) with
    | none =>
      rw [upTo, Option.getD_none, List.take_length]
      apply mem_stripCr
      rw [hline]
      exact List.mem_append_left _ hc
    | some i =>
      -- a comment starts after the separator, so the line reaches that far
      obtain ⟨hreach, hle⟩ := opensshCommentOffset_eq_some hoffset
      refine .inl (mem_upTo (n := afterSeparator d) (by rintro _ ⟨⟩; exact hle) ?_)
      obtain ⟨more, hmore⟩ := stripCr_prefix line
      rw [← @List.take_append_of_le_length _ _ more _ hreach, hmore, hline, ← hlength,
        List.take_left]
      exact hc
  rcases hseen with hin | rfl
  · apply isDelimiterSpace_of_isBlank
    apply isBlank_of_visible hspace
    rw [hasInvisibleCharacter, hrender] at hvisible
    apply Bool.eq_false_iff.mpr
    exact List.any_eq_false.mp hvisible c hin
  · rfl

/-! ## Arguments without quotes and escapes -/

/-- What OpenSSH reads of a text, by the state the program's scanner is in. -/
def readFrom (word : Option (Option Char)) (s : List Char) : List Char :=
  upTo s (opensshCommentFrom word s)

theorem readFrom_cons_of_map {word word' : Option (Option Char)} {c : Char} {rest : List Char}
    (h : opensshCommentFrom word (c :: rest) = (opensshCommentFrom word' rest).map (· + 1)) :
    readFrom word (c :: rest) = c :: readFrom word' rest := by
  unfold readFrom upTo
  rw [h]
  cases opensshCommentFrom word' rest with
  | none => simp
  | some i => simp

theorem opensshCommentFrom_blank {c : Char} (hc : isBlank c = true) (word : Option (Option Char))
    (hword : word = none ∨ word = some none) (rest : List Char) :
    opensshCommentFrom word (c :: rest) = (opensshCommentFrom none rest).map (· + 1) := by
  have hblank : c = ' ' ∨ c = '\t' := by simpa [isBlank] using hc
  have hslash : c ≠ '\\' := by rcases hblank with rfl | rfl <;> decide
  rw [opensshCommentFrom]
  rcases hword with rfl | rfl
  · simp [hblank]
  · simp [hblank, hslash]

theorem opensshCommentFrom_letter {c : Char} (hc : isBlank c = false)
    (hquote : isQuoteOrEscape c = false) {word : Option (Option Char)}
    (hword : (word = none ∧ c ≠ '#') ∨ word = some none) (rest : List Char) :
    opensshCommentFrom word (c :: rest) = (opensshCommentFrom (some none) rest).map (· + 1) := by
  have hblank : ¬ (c = ' ' ∨ c = '\t') := by simpa [isBlank] using hc
  simp only [isQuoteOrEscape, Bool.or_eq_false_iff, decide_eq_false_iff_not] at hquote
  rw [opensshCommentFrom]
  rcases hword with ⟨rfl, hhash⟩ | rfl
  · simp [hblank, hhash, hquote]
  · simp [hblank, hquote]

theorem argvSplitFrom_letter {c : Char} (hc : isBlank c = false)
    (hquote : isQuoteOrEscape c = false) (hhash : c ≠ '#') (rest : List Char) :
    OpenSsh.argvSplitFrom none (c :: rest) = OpenSsh.argvSplitFrom (some (none, [c])) rest := by
  have hblank : OpenSsh.isArgumentSpace c = false := hc
  simp only [isQuoteOrEscape, Bool.or_eq_false_iff, decide_eq_false_iff_not] at hquote
  rw [OpenSsh.argvSplitFrom]
  simp [hblank, hhash, hquote]

theorem argvSplitFrom_letter_in_word {c : Char} (hc : isBlank c = false)
    (hquote : isQuoteOrEscape c = false) (read rest : List Char) :
    OpenSsh.argvSplitFrom (some (none, read)) (c :: rest) =
      OpenSsh.argvSplitFrom (some (none, read ++ [c])) rest := by
  have hblank : OpenSsh.isArgumentSpace c = false := hc
  simp only [isQuoteOrEscape, Bool.or_eq_false_iff, decide_eq_false_iff_not] at hquote
  rw [OpenSsh.argvSplitFrom]
  simp [hblank, hquote]

theorem argvSplitFrom_blank_in_word {c : Char} (hc : isBlank c = true) (read rest : List Char) :
    OpenSsh.argvSplitFrom (some (none, read)) (c :: rest) =
      (OpenSsh.argvSplitFrom none rest).map (read :: ·) := by
  have hslash : c ≠ '\\' := by
    simp only [isBlank, Bool.or_eq_true, decide_eq_true_eq] at hc
    rcases hc with rfl | rfl <;> decide
  have hblank : OpenSsh.isArgumentSpace c = true := hc
  rw [OpenSsh.argvSplitFrom]
  simp [hblank, hslash]

theorem argvSplitFrom_blank {c : Char} (hc : isBlank c = true) (rest : List Char) :
    OpenSsh.argvSplitFrom none (c :: rest) = OpenSsh.argvSplitFrom none rest := by
  have hblank : OpenSsh.isArgumentSpace c = true := hc
  rw [OpenSsh.argvSplitFrom]
  simp [hblank]

theorem argvSplitFrom_comment (rest : List Char) :
    OpenSsh.argvSplitFrom none ('#' :: rest) = some [] := by
  rw [OpenSsh.argvSplitFrom]
  simp [OpenSsh.isArgumentSpace]

/-- The first character is read unless it starts the comment. -/
theorem mem_readFrom_head {c : Char} {rest : List Char} {word : Option (Option Char)}
    (h : ¬ (word = none ∧ c = '#')) : c ∈ readFrom word (c :: rest) := by
  apply mem_upTo (n := 1)
  · intro i hi
    rw [opensshCommentFrom, if_neg h] at hi
    split at hi
    · obtain ⟨j, -, rfl⟩ := Option.map_eq_some_iff.mp hi
      omega
    · dsimp only at hi
      split at hi
      · obtain ⟨j, -, rfl⟩ := Option.map_eq_some_iff.mp hi
        omega
      · split at hi
        · obtain ⟨j, -, rfl⟩ := Option.map_eq_some_iff.mp hi
          omega
        · split at hi
          · obtain ⟨j, -, rfl⟩ := Option.map_eq_some_iff.mp hi
            omega
          · split at hi <;>
            · obtain ⟨j, -, rfl⟩ := Option.map_eq_some_iff.mp hi
              omega
  · simp

/-- Without quotes and escapes before the comment, the arguments are the words before it, from
between words as from inside one. -/
theorem argvSplitFrom_eq_words (s : List Char) :
    ((readFrom none s).any isQuoteOrEscape = false →
      OpenSsh.argvSplitFrom none s = some (words isBlank (readFrom none s))) ∧
    ∀ read, read ≠ [] → (readFrom (some none) s).any isQuoteOrEscape = false →
      OpenSsh.argvSplitFrom (some (none, read)) s =
        some (wordsFrom isBlank read (readFrom (some none) s)) := by
  -- both halves at once: a blank ends the word, a letter begins or goes on with one
  induction s with
  | nil =>
    constructor
    · intro _
      simp [readFrom, upTo, OpenSsh.argvSplitFrom]
    · intro read hread _
      simp [readFrom, upTo, OpenSsh.argvSplitFrom, wordsFrom_nil hread]
  | cons c rest ih =>
    obtain ⟨ihBetween, ihInside⟩ := ih
    have hplain : ∀ word, ¬ (word = none ∧ c = '#') →
        (readFrom word (c :: rest)).any isQuoteOrEscape = false → isQuoteOrEscape c = false := by
      intro word hword hread
      exact Bool.eq_false_iff.mpr (List.any_eq_false.mp hread c (mem_readFrom_head hword))
    constructor
    · intro hread
      by_cases hhash : c = '#'
      · subst hhash
        have hnone : readFrom none ('#' :: rest) = [] := by
          rw [readFrom, opensshCommentFrom]
          simp [upTo]
        rw [hnone, words_nil, argvSplitFrom_comment]
      cases hc : isBlank c with
      | true =>
        have hcons := readFrom_cons_of_map (opensshCommentFrom_blank hc none (.inl rfl) rest)
        rw [hcons] at hread ⊢
        rw [argvSplitFrom_blank hc, words_separator hc]
        apply ihBetween
        simp only [List.any_cons, Bool.or_eq_false_iff] at hread
        exact hread.2
      | false =>
        have hq := hplain none (by simp [hhash]) hread
        have hcons := readFrom_cons_of_map
          (opensshCommentFrom_letter hc hq (.inl ⟨rfl, hhash⟩) rest)
        rw [hcons] at hread ⊢
        rw [argvSplitFrom_letter hc hq hhash, words_letter hc]
        apply ihInside [c] (by simp)
        simp only [List.any_cons, Bool.or_eq_false_iff] at hread
        exact hread.2
    · intro read hne hread
      cases hc : isBlank c with
      | true =>
        have hcons := readFrom_cons_of_map (opensshCommentFrom_blank hc (some none) (.inr rfl) rest)
        rw [hcons] at hread ⊢
        simp only [List.any_cons, Bool.or_eq_false_iff] at hread
        rw [argvSplitFrom_blank_in_word hc, wordsFrom_separator hc hne, ihBetween hread.2]
        rfl
      | false =>
        have hq := hplain (some none) (by simp) hread
        have hcons := readFrom_cons_of_map (opensshCommentFrom_letter hc hq (.inr rfl) rest)
        rw [hcons] at hread ⊢
        simp only [List.any_cons, Bool.or_eq_false_iff] at hread
        rw [argvSplitFrom_letter_in_word hc hq, wordsFrom_letter hc]
        exact ihInside (read ++ [c]) (by simp) hread.2

/-- A `#` with nothing or a blank before it. -/
def CommentAt (word : Option (Option Char)) (s : List Char) (j : Nat) : Prop :=
  s[j]? = some '#' ∧
    ((word = none ∧ j = 0) ∨ ∃ b, 0 < j ∧ s[j - 1]? = some b ∧ isBlank b = true)

theorem CommentAt.cons {word word' : Option (Option Char)} {c : Char} {rest : List Char} {k : Nat}
    (hc : isBlank c = true ∨ word' ≠ none) (h : CommentAt word' rest k) :
    CommentAt word (c :: rest) (k + 1) := by
  refine ⟨by simpa using h.1, .inr ?_⟩
  rcases h.2 with ⟨hnone, rfl⟩ | ⟨b, hpos, hb, hblank⟩
  · exact ⟨c, by omega, by simp, hc.resolve_right (by simp [hnone])⟩
  · obtain ⟨m, rfl⟩ : ∃ m, k = m + 1 := ⟨k - 1, by omega⟩
    exact ⟨b, by omega, by simpa using hb, hblank⟩

theorem isBlank_of_or {c : Char} (h : c = ' ' ∨ c = '\t') : isBlank c = true := by
  rcases h with rfl | rfl <;> rfl

/-- A comment starts only there. -/
theorem commentAt_of_opensshCommentFrom (word : Option (Option Char)) (s : List Char) {j : Nat}
    (h : opensshCommentFrom word s = some j) : CommentAt word s j := by
  fun_induction opensshCommentFrom word s generalizing j with
  | case1 => cases h
  | case2 word c rest hblank ih =>
    obtain ⟨k, hk, rfl⟩ := Option.map_eq_some_iff.mp h
    exact (ih hk).cons (.inl (isBlank_of_or hblank.2))
  | case3 word c rest _ hhash =>
    cases h
    refine ⟨by simp [hhash.2], .inl ⟨hhash.1, rfl⟩⟩
  | case4 word c rest _ _ _ hescape =>
    rename_i ih
    obtain ⟨k, hk, rfl⟩ := Option.map_eq_some_iff.mp h
    cases rest with
    | nil => simp [isEscaped] at hescape
    | cons d tail =>
      have hinner : CommentAt (some none) (d :: tail) (k + 1) := (ih hk).cons (.inr (by simp))
      exact hinner.cons (.inr (by simp))
  | case5 word c rest _ _ _ _ hblank =>
    rename_i ih
    obtain ⟨k, hk, rfl⟩ := Option.map_eq_some_iff.mp h
    exact (ih hk).cons (.inl (isBlank_of_or hblank.2))
  | case6 word c rest =>
    rename_i ih
    obtain ⟨k, hk, rfl⟩ := Option.map_eq_some_iff.mp h
    exact (ih hk).cons (.inr (by simp))
  | case7 word c rest =>
    rename_i ih
    obtain ⟨k, hk, rfl⟩ := Option.map_eq_some_iff.mp h
    exact (ih hk).cons (.inr (by simp))
  | case8 word c rest =>
    rename_i ih
    obtain ⟨k, hk, rfl⟩ := Option.map_eq_some_iff.mp h
    exact (ih hk).cons (.inr (by simp))

/-! ## The text after the separator -/

theorem takeSeparator_after {sawEq : Bool} {s : List Char} {c : Char}
    (hc : (takeSeparator sawEq s).2.2.head? = some c) : isWhitespace c = false := by
  induction s generalizing sawEq with
  | nil => cases hc
  | cons d rest ih =>
    unfold takeSeparator at hc
    split at hc
    · exact ih hc
    · split at hc
      · exact ih hc
      next hspace =>
        cases hc
        simpa using hspace

theorem takeSeparator_true_sep {s : List Char} {c : Char} (hc : c ∈ (takeSeparator true s).1) :
    isWhitespace c = true := by
  induction s with
  | nil => cases hc
  | cons d rest ih =>
    unfold takeSeparator at hc
    simp only [Bool.true_eq_false, and_false, if_false] at hc
    split at hc
    next hspace =>
      rcases List.mem_cons.mp hc with rfl | hc
      · exact hspace
      · exact ih hc
    next => cases hc

/-- OpenSSH skips the parser's separator when it sees the same whitespace in it. -/
theorem skipSeparator_taken {s value : List Char} (hne : value ≠ [])
    (hhead : (takeSeparator false s).2.2.head? = value.head?)
    (hspaced : ∀ c ∈ (takeSeparator false s).1, isWhitespace c = true →
      OpenSsh.isDelimiterSpace c = true) :
    OpenSsh.skipSeparator ((takeSeparator false s).1 ++ value) = value := by
  obtain ⟨first, others, rfl⟩ := List.exists_cons_of_ne_nil hne
  have hfirst : OpenSsh.isDelimiterSpace first = false :=
    not_isDelimiterSpace (takeSeparator_after (hhead.trans rfl))
  induction s with
  | nil => cases hhead
  | cons c rest ih =>
    unfold takeSeparator at hhead hspaced ⊢
    by_cases heq : c = '='
    · simp only [heq, true_and, if_true] at hhead hspaced ⊢
      -- after the `=` only whitespace is left of the separator
      have hafter : ∀ x ∈ (takeSeparator true rest).1, OpenSsh.isDelimiterSpace x = true := by
        intro x hx
        apply hspaced x (List.mem_cons_of_mem _ hx)
        exact takeSeparator_true_sep hx
      have hdrop := dropWhile_append_stop (t := first :: others) hafter
        (by intro x hx; cases hx; exact hfirst)
      simp only [OpenSsh.skipSeparator, List.cons_append]
      have hdelim : OpenSsh.isDelimiterSpace '=' = false := by decide
      rw [List.dropWhile_cons, hdelim]
      exact hdrop
    · simp only [heq, false_and, if_false] at hhead hspaced ⊢
      cases hspace : isWhitespace c with
      | true =>
        simp only [hspace, if_true] at hhead hspaced ⊢
        have hdelim := hspaced c List.mem_cons_self hspace
        have hrest := ih (fun x hx => hspaced x (List.mem_cons_of_mem _ hx)) hhead
        have hskip : OpenSsh.skipSeparator (c :: ((takeSeparator false rest).1 ++ first :: others)) =
            OpenSsh.skipSeparator ((takeSeparator false rest).1 ++ first :: others) := by
          simp only [OpenSsh.skipSeparator, List.dropWhile_cons, hdelim, if_true]
        exact hskip.trans hrest
      | false =>
        simp only [hspace, Bool.false_eq_true, if_false, List.head?_cons, Option.some.injEq,
          List.nil_append] at hhead ⊢
        subst hhead
        simp only [OpenSsh.skipSeparator, List.dropWhile_cons, hfirst]
        split
        next hcons => cases hcons; exact absurd rfl heq
        next => rfl

theorem rdropWhile_append_of_ne_nil {p : Char → Bool} {s t : List Char} (ht : t.rdropWhile p ≠ []) :
    (s ++ t).rdropWhile p = s ++ t.rdropWhile p := by
  induction t using List.reverseRecOn with
  | nil => simp at ht
  | append_singleton t c ih =>
    rw [← List.append_assoc]
    cases hc : p c with
    | true =>
      rw [List.rdropWhile_concat_pos _ _ _ hc] at ht
      rw [List.rdropWhile_concat_pos _ _ _ hc, List.rdropWhile_concat_pos _ _ _ hc, ih ht]
    | false =>
      have hn : ¬ p c = true := by simp [hc]
      rw [List.rdropWhile_concat_neg _ _ _ hn, List.rdropWhile_concat_neg _ _ _ hn,
        List.append_assoc]

/-- The arguments of a line whose value is not blank. -/
theorem readLine_value {u : UnicodeTables} {line : List Char} {d : Directive} (hl : Laid u line d)
    (hspaced : SpacedAlike d) (hkw : d.keyword ≠ []) (hquote : '"' ∉ d.keyword)
    (hvalue : d.rest.rdropWhile OpenSsh.isLineEnd ≠ []) :
    OpenSsh.readLine line =
      .setting d.keyword (OpenSsh.argvSplit (d.rest.rdropWhile OpenSsh.isLineEnd)) := by
  set value := d.rest.rdropWhile OpenSsh.isLineEnd with hval
  have hhead : value.head? = d.rest.head? := by
    obtain ⟨more, hmore⟩ := List.rdropWhile_prefix OpenSsh.isLineEnd d.rest
    rw [← hmore, ← hval, List.head?_append]
    obtain ⟨first, others, hcons⟩ := List.exists_cons_of_ne_nil hvalue
    rw [hcons]
    rfl
  obtain ⟨hsep, hafter⟩ := hl.taken
  have hskip : OpenSsh.skipSeparator (d.separator.text ++ value) = value := by
    have h := @skipSeparator_taken (d.separator.text ++ d.rest) value hvalue
      (by rw [hafter, hhead])
      (by
        intro c hc hspace
        rw [hsep] at hc
        exact hspaced c (by simp [hc]) hspace)
    rw [hsep] at h
    exact h
  have hstart : value.dropWhile OpenSsh.isDelimiterSpace = value := by
    have hfirst : ∀ c, value.head? = some c → OpenSsh.isDelimiterSpace c = false := by
      intro c hc
      rw [hhead, ← hafter] at hc
      exact not_isDelimiterSpace (takeSeparator_after hc)
    exact dropWhile_append_stop (s := []) (by simp) hfirst
  rw [readLine_laid hl hspaced hkw hquote, rdropWhile_append_of_ne_nil hvalue, hskip, hstart]

/-! ## One plain word -/

theorem argvSplitFrom_word {word : List Char}
    (hword : ∀ c ∈ word, isBlank c = false ∧ isQuoteOrEscape c = false) (read rest : List Char) :
    OpenSsh.argvSplitFrom (some (none, read)) (word ++ rest) =
      OpenSsh.argvSplitFrom (some (none, read ++ word)) rest := by
  induction word generalizing read with
  | nil => simp
  | cons c more ih =>
    obtain ⟨hblank, hquote⟩ := hword c List.mem_cons_self
    rw [List.cons_append, argvSplitFrom_letter_in_word hblank hquote,
      ih (fun x hx => hword x (List.mem_cons_of_mem _ hx)), List.append_assoc]
    rfl

theorem argvSplitFrom_blanks {blanks : List Char} (h : ∀ c ∈ blanks, isBlank c = true)
    (rest : List Char) :
    OpenSsh.argvSplitFrom none (blanks ++ rest) = OpenSsh.argvSplitFrom none rest := by
  induction blanks with
  | nil => rfl
  | cons c more ih =>
    rw [List.cons_append, argvSplitFrom_blank (h c List.mem_cons_self)]
    exact ih fun x hx => h x (List.mem_cons_of_mem _ hx)

/-- A plain word, blanks and a comment (or nothing) are one argument. -/
theorem argvSplit_plain {word blanks tail : List Char} (hne : word ≠ [])
    (hword : ∀ c ∈ word, isBlank c = false ∧ isQuoteOrEscape c = false)
    (hhash : word.head? ≠ some '#') (hblanks : ∀ c ∈ blanks, isBlank c = true)
    (htail : (tail = [] ∧ blanks = []) ∨ (∃ comment, tail = '#' :: comment) ∧ blanks ≠ []) :
    OpenSsh.argvSplit (word ++ (blanks ++ tail)) = some [word] := by
  obtain ⟨first, others, rfl⟩ := List.exists_cons_of_ne_nil hne
  obtain ⟨hblank, hquote⟩ := hword first List.mem_cons_self
  have hfirst : first ≠ '#' := by simpa using hhash
  rw [OpenSsh.argvSplit, List.cons_append, argvSplitFrom_letter hblank hquote hfirst,
    argvSplitFrom_word fun x hx => hword x (List.mem_cons_of_mem _ hx)]
  rcases htail with ⟨rfl, rfl⟩ | ⟨⟨comment, rfl⟩, hsome⟩
  · simp [OpenSsh.argvSplitFrom]
  · obtain ⟨b, more, rfl⟩ := List.exists_cons_of_ne_nil hsome
    rw [@List.cons_append _ b, argvSplitFrom_blank_in_word (hblanks b List.mem_cons_self),
      argvSplitFrom_blanks (fun x hx => hblanks x (List.mem_cons_of_mem _ hx)),
      argvSplitFrom_comment]
    rfl

/-- The text before the first place a comment could start is looked at. -/
theorem visible_of_no_comment {u : UnicodeTables} {line : List Char} {d : Directive}
    (hl : Laid u line d) (hvisible : hasInvisibleCharacter d = false) {s t : List Char}
    (hrest : d.rest = s ++ t) (ht : t ≠ [])
    (hno : ∀ j < s.length, ¬ CommentAt none (s ++ stripCr t) j) :
    ∀ c ∈ s, isInvisible c = false := by
  intro c hc
  set head := d.indent ++ (d.keyword ++ d.separator.text) with hhead
  have hline : stripCr line = head ++ (s ++ stripCr t) := by
    rw [hl.line_eq, hrest]
    have hassoc : d.indent ++ (d.keyword ++ (d.separator.text ++ (s ++ t))) = (head ++ s) ++ t := by
      simp [hhead]
    rw [hassoc, stripCr_append ht, List.append_assoc]
  have hlength : head.length = afterSeparator d := by
    simp [hhead, afterSeparator, Nat.add_assoc]
  have hrender : renderDirective d = line := by simp [renderDirective, hl.clean, hl.raw]
  rw [hasInvisibleCharacter, hrender] at hvisible
  apply Bool.eq_false_iff.mpr
  apply List.any_eq_false.mp hvisible c
  apply mem_upTo (n := (head ++ s).length)
  · intro i hi
    unfold opensshCommentOffset at hi
    split at hi
    · cases hi
    dsimp only at hi
    split at hi
    · cases hi
    · obtain ⟨j, hj, rfl⟩ := Option.map_eq_some_iff.mp hi
      rw [hline, ← hlength, List.drop_left] at hj
      have hat := commentAt_of_opensshCommentFrom none _ hj
      have hge : s.length ≤ j := by
        by_contra hlt
        exact hno j (by omega) hat
      simp only [List.length_append]
      omega
  · rw [hline, ← List.append_assoc, List.take_left]
    exact List.mem_append_right _ hc

/-- No comment can start in a word or in the whitespace after it. -/
theorem no_comment_in_word {word post tail : List Char}
    (hword : ∀ c ∈ word, isAsciiWhitespace c = false) (hhash : word.head? ≠ some '#')
    (hpost : ∀ c ∈ post, isAsciiWhitespace c = true) :
    ∀ j < (word ++ post).length, ¬ CommentAt none (word ++ post ++ tail) j := by
  rintro j hj ⟨hat, hbefore⟩
  rw [List.getElem?_append_left hj] at hat
  by_cases hin : j < word.length
  · rw [List.getElem?_append_left hin] at hat
    rcases hbefore with ⟨-, rfl⟩ | ⟨b, hpos, hb, hblank⟩
    · rw [← List.head?_eq_getElem?] at hat
      exact hhash hat
    · -- inside the word the character before is not a blank
      rw [List.getElem?_append_left (by omega), List.getElem?_append_left (by omega)] at hb
      have hspace := hword b (List.mem_of_getElem? hb)
      have hblank : b = ' ' ∨ b = '\t' := by simpa [isBlank] using hblank
      rcases hblank with rfl | rfl <;> revert hspace <;> decide
  · rw [List.getElem?_append_right (by omega)] at hat
    have hspace := hpost '#' (List.mem_of_getElem? hat)
    revert hspace
    decide

theorem isLineEnd_eq_isAsciiWhitespace (c : Char) :
    OpenSsh.isLineEnd c = isAsciiWhitespace c := by
  simp only [OpenSsh.isLineEnd, OpenSsh.isDelimiterSpace, isAsciiWhitespace, Bool.decide_or]
  cases decide (c = ' ') <;> cases decide (c = '\t') <;> cases decide (c = '\r') <;>
    cases decide (c = '\n') <;> cases decide (c = '\x0c') <;> rfl

theorem mem_shellCharacters_of_quote {c : Char} (h : isQuoteOrEscape c = true) :
    shellCharacters.contains c = true := by
  simp only [isQuoteOrEscape, Bool.or_eq_true, decide_eq_true_eq] at h
  rcases h with (rfl | rfl) | rfl <;> decide

/-- One word before the first that starts with `#`. -/
theorem takeWhile_words_eq_singleton {all : List (List Char)} {word : List Char}
    (h : all.takeWhile (fun word => word.head? != some '#') = [word]) :
    ∃ more, all = word :: more ∧ word.head? ≠ some '#' ∧
      (more = [] ∨ ∃ next others, more = next :: others ∧ next.head? = some '#') := by
  cases all with
  | nil => cases h
  | cons first more =>
    rw [List.takeWhile_cons] at h
    split at h
    next hfirst =>
      obtain ⟨rfl, hmore⟩ := List.cons.inj h
      refine ⟨more, rfl, by simpa using hfirst, ?_⟩
      cases more with
      | nil => exact .inl rfl
      | cons next others =>
        rw [List.takeWhile_cons] at hmore
        split at hmore
        next => cases hmore
        next hnext => exact .inr ⟨next, others, rfl, by simpa using hnext⟩
    next => cases h

/-- A value that passes the check is one plain argument to OpenSSH. -/
theorem readLine_shellBound {u : UnicodeTables} {line : List Char} {d : Directive}
    (hl : Laid u line d) (hkw : d.keyword ≠ []) (hquote : '"' ∉ d.keyword)
    (hvisible : hasInvisibleCharacter d = false) (hplain : isPlainShellBoundValue d = true) :
    ∃ word, OpenSsh.readLine line = .setting d.keyword (some [word]) ∧ word.head? ≠ some '-' ∧
      ∀ c ∈ word, c ∉ shellCharacters := by
  have hspaced := spacedAlike_of_visible hl hvisible
  unfold isPlainShellBoundValue at hplain
  split at hplain
  case h_2 => cases hplain
  next word hwords =>
    simp only [Bool.and_eq_true, bne_iff_ne, ne_eq, Bool.not_eq_true'] at hplain
    obtain ⟨⟨hdash, hclean⟩, -⟩ := hplain
    have hshell : ∀ c ∈ word, c ∉ shellCharacters := by
      intro c hc hin
      have := List.any_eq_false.mp hclean c hc
      simp [hin] at this
    refine ⟨word, ?_, hdash, hshell⟩
    obtain ⟨more, hall, hhash, hmore⟩ := takeWhile_words_eq_singleton hwords
    obtain ⟨before, after, hrest, hbefore, hne, hword, hafter, hwordsAfter⟩ := words_eq_cons hall
    have hnil : before = [] := by
      -- the value does not start with whitespace
      cases before with
      | nil => rfl
      | cons b others =>
        have hhead : (takeSeparator false (d.separator.text ++ d.rest)).2.2.head? = some b := by
          rw [hl.taken.2, hrest]
          rfl
        have hspace := takeSeparator_after hhead
        rw [isWhitespace_of_isAsciiWhitespace (hbefore b List.mem_cons_self)] at hspace
        cases hspace
    subst hnil
    rw [List.nil_append] at hrest
    have hletters : ∀ c ∈ word, isBlank c = false ∧ isQuoteOrEscape c = false := by
      intro c hc
      constructor
      · apply Bool.eq_false_iff.mpr
        intro hblank
        have hspace := hword c hc
        have hblank : c = ' ' ∨ c = '\t' := by simpa [isBlank] using hblank
        rcases hblank with rfl | rfl <;> revert hspace <;> decide
      · apply Bool.eq_false_iff.mpr
        intro hq
        exact hshell c hc (by simpa using mem_shellCharacters_of_quote hq)
    have hlast : OpenSsh.isLineEnd (word.getLast hne) = false := by
      rw [isLineEnd_eq_isAsciiWhitespace]
      exact hword _ (List.getLast_mem hne)
    have hvalue : d.rest.rdropWhile OpenSsh.isLineEnd = word ++ after.rdropWhile OpenSsh.isLineEnd := by
      rw [hrest, rdropWhile_append_of_not hne hlast]
    have hvalueNe : d.rest.rdropWhile OpenSsh.isLineEnd ≠ [] := by simp [hvalue, hne]
    rw [readLine_value hl hspaced hkw hquote hvalueNe, hvalue]
    congr 1
    rcases hmore with rfl | ⟨next, others, rfl, hnext⟩
    · have hspaces : after.rdropWhile OpenSsh.isLineEnd = [] := by
        apply List.rdropWhile_eq_nil_iff.mpr
        intro c hc
        rw [isLineEnd_eq_isAsciiWhitespace]
        exact words_eq_nil hwordsAfter c hc
      rw [hspaces]
      exact @argvSplit_plain word [] [] hne hletters hhash (by simp) (.inl ⟨rfl, rfl⟩)
    · obtain ⟨post, rest, rfl, hpost, hnextNe, -, -, -⟩ := words_eq_cons hwordsAfter
      obtain ⟨letters, rfl⟩ : ∃ letters, next = '#' :: letters := by
        cases next with
        | nil => cases hnext
        | cons c letters => cases hnext; exact ⟨letters, rfl⟩
      have hpostNe : post ≠ [] := by
        rintro rfl
        have hspace := hafter '#' rfl
        revert hspace
        decide
      -- up to the comment the line is looked at, so this whitespace is blanks and tabs
      have hblanks : ∀ c ∈ post, isBlank c = true := by
        intro c hc
        apply isBlank_of_visible (isWhitespace_of_isAsciiWhitespace (hpost c hc))
        have hsplit : d.rest = (word ++ post) ++ ('#' :: (letters ++ rest)) := by
          rw [hrest]
          simp
        exact visible_of_no_comment hl hvisible hsplit (by simp)
          (no_comment_in_word hword hhash hpost) c (List.mem_append_right _ hc)
      have hend : (post ++ ('#' :: letters ++ rest)).rdropWhile OpenSsh.isLineEnd =
          post ++ '#' :: (letters ++ rest).rdropWhile OpenSsh.isLineEnd := by
        have hsplit : post ++ ('#' :: letters ++ rest) = (post ++ ['#']) ++ (letters ++ rest) := by
          simp
        have hlast : OpenSsh.isLineEnd ((post ++ ['#']).getLast (by simp)) = false := by
          rw [List.getLast_append_singleton]
          decide
        rw [hsplit, rdropWhile_append_of_not (by simp) hlast]
        simp
      rw [hend]
      exact argvSplit_plain hne hletters hhash hblanks (.inr ⟨⟨_, rfl⟩, hpostNe⟩)

/-! ## Accepted texts -/

/-- What the checks leave of a directive. -/
structure Accepted (d : Directive) : Prop where
  keyword : d.keyword ≠ []
  quote : '"' ∉ d.keyword
  notInclude : d.key ≠ "include".toList
  visible : hasInvisibleCharacter d = false
  header : headerName d.key ≠ none → headerReadsTheSame d = true
  value : d.key ∈ shellBoundKeywords.map Prod.fst → isPlainShellBoundValue d = true

theorem headerName_of_shellBound {key : List Char} (h : key ∈ shellBoundKeywords.map Prod.fst) :
    headerName key = none := by
  simp only [shellBoundKeywords, List.map_cons, List.map_nil, List.mem_cons, List.not_mem_nil,
    or_false] at h
  rcases h with rfl | rfl | rfl | rfl <;> decide

theorem accepted_of_forbidden {u : UnicodeTables} {d : Directive} (hclean : d.dirty = false)
    (h : forbidden u d = none) : Accepted d := by
  have hlive : d.serializesAsComment = false := by simp [Directive.serializesAsComment, hclean]
  unfold forbidden at h
  rw [hlive] at h
  simp only [Bool.false_eq_true, if_false] at h
  split at h
  · cases h
  next hkeyword =>
  split at h
  · cases h
  next hquote =>
  split at h
  · cases h
  next hinclude =>
  split at h
  · cases h
  next hvisible =>
  split at h
  · cases h
  refine
    { keyword := by simpa using hkeyword, quote := by simpa using hquote, notInclude := hinclude
      visible := by simpa using hvisible, header := ?_, value := ?_ }
  · intro hname
    split at h
    next name _ =>
      by_contra hread
      simp [hread] at h
    next heq => exact absurd heq hname
  · intro hin
    rw [headerName_of_shellBound hin] at h
    dsimp only at h
    split at h
    next pair heq =>
      by_contra hplain
      simp [hplain] at h
    next heq =>
      obtain ⟨pair, hpair, hfst⟩ := List.mem_map.mp hin
      have := List.find?_eq_none.mp heq pair hpair
      simp [hfst] at this

theorem forbiddenDirective_eq_none {u : UnicodeTables} {items : List Item}
    (h : forbiddenDirective u items = none) : ∀ item ∈ items, forbiddenItem u item = none := by
  induction items with
  | nil => simp
  | cons first rest ih =>
    rw [forbiddenDirective] at h
    cases hfirst : forbiddenItem u first with
    | some f => rw [hfirst] at h; cases h
    | none =>
      rw [hfirst] at h
      intro item hitem
      rcases List.mem_cons.mp hitem with rfl | hitem
      · exact hfirst
      · exact ih h item hitem

/-- What an accepted text is to the parser. -/
theorem validateHostText_ok {u : UnicodeTables} {alias_ text : List Char}
    (h : validateHostText u alias_ text = .ok ()) :
    ∃ header patterns body, (parseFile u text).1 = [.Host header patterns body] ∧
      patterns ≠ [] ∧ forbidden u header = none ∧ ∀ item ∈ body, forbiddenItem u item = none := by
  unfold validateHostText at h
  simp only [Result.refuse_bind_eq_ok] at h
  obtain ⟨-, h⟩ := h
  obtain ⟨host, hparse, -⟩ := Result.bind_eq_ok.mp h
  unfold parseSingleHost at hparse
  simp only [Result.refuse_bind_eq_ok] at hparse
  obtain ⟨-, hparse⟩ := hparse
  split at hparse
  next header patterns body hparsed =>
    simp only [Result.refuse_bind_eq_ok] at hparse
    obtain ⟨-, hsync, hparse⟩ := hparse
    split at hparse
    next f _ => cases hparse
    next hnone =>
      have hitem := forbiddenDirective_eq_none hnone _ List.mem_cons_self
      rw [forbiddenItem] at hitem
      cases hheader : forbidden u header with
      | some f => rw [hheader] at hitem; cases hitem
      | none =>
        rw [hheader] at hitem
        refine ⟨header, patterns, body, hparsed, ?_, hheader, forbiddenDirective_eq_none hitem⟩
        rintro rfl
        simp [isSyncableBlock] at hsync
  next => cases hparse

/-- The header of an accepted text: OpenSSH reads the parser's patterns. -/
theorem readLine_header {u : UnicodeTables} {line : List Char} {d : Directive} (hl : Laid u line d)
    (ha : Accepted d) (hkey : d.key = "host".toList)
    (hpatterns : words isWhitespace d.value ≠ []) :
    OpenSsh.readLine line = .setting d.keyword (some (words isWhitespace d.value)) := by
  have hsame := ha.header (by rw [hkey]; decide)
  unfold headerReadsTheSame at hsame
  dsimp only at hsame
  rw [endsLine_eq_isLineEnd] at hsame
  simp only [Bool.and_eq_true, Bool.not_eq_true', decide_eq_true_eq] at hsame
  obtain ⟨hquotes, hwords⟩ := hsame
  set value := d.rest.rdropWhile OpenSsh.isLineEnd with hvalue
  have hne : value ≠ [] := by
    intro hnil
    rw [hnil] at hwords
    apply hpatterns
    rw [← hwords]
    simp [upTo]
  have hargs := (argvSplitFrom_eq_words value).1 hquotes
  rw [readLine_value hl (spacedAlike_of_visible hl ha.visible) ha.keyword ha.quote hne,
    ← hvalue, OpenSsh.argvSplit, hargs]
  congr 2

/-- A body line and the item made of it: nothing where the parser sees nothing, otherwise the
parser's keyword. -/
def ReadAlike (line : List Char) : Item → Prop
  | .Blank _ => OpenSsh.readLine line = .nothing
  | .Comment _ => OpenSsh.readLine line = .nothing
  | .Directive d => ∃ arguments, OpenSsh.readLine line = .setting d.keyword arguments
  | _ => False

/-- A setting whose value ssh expands into commands: one argument that is no option and has
nothing in it a shell would read. -/
def PlainWhereShellBound (line : OpenSsh.Line) : Prop :=
  ∀ keyword arguments, line = .setting keyword arguments →
    asciiLowercase keyword ∈ shellBoundKeywords.map Prod.fst →
      ∃ word, arguments = some [word] ∧ word.head? ≠ some '-' ∧ ∀ c ∈ word, c ∉ shellCharacters

theorem key_of_name {u : UnicodeTables} {line word : List Char} {d : Directive} (hl : Laid u line d)
    (hword : ∀ c ∈ word, isAscii c = true) (h : asciiLowercase d.keyword = word) : d.key = word := by
  rw [hl.key]
  exact lowercase_of_asciiLowercase u hword h

theorem shellBoundKeywords_ascii :
    ∀ word ∈ shellBoundKeywords.map Prod.fst, ∀ c ∈ word, isAscii c = true := by
  simp [shellBoundKeywords, isAscii]

/-- The names a body line of an accepted text cannot have. -/
def blockNames : List (List Char) := ["host".toList, "match".toList, "include".toList]

theorem blockNames_ascii : ∀ word ∈ blockNames, ∀ c ∈ word, isAscii c = true := by
  simp [blockNames, isAscii]

theorem plainWhereShellBound_of_accepted {u : UnicodeTables} {line : List Char} {d : Directive}
    (hl : Laid u line d) (ha : Accepted d) {arguments : Option (List (List Char))}
    (hread : OpenSsh.readLine line = .setting d.keyword arguments) :
    PlainWhereShellBound (OpenSsh.readLine line) := by
  intro keyword arguments' hsetting hname
  rw [hread] at hsetting
  cases hsetting
  have hkey := key_of_name hl (shellBoundKeywords_ascii _ hname) rfl
  obtain ⟨word, hword, hdash, hshell⟩ :=
    readLine_shellBound hl ha.keyword ha.quote ha.visible (ha.value (by rw [hkey]; exact hname))
  rw [hread] at hword
  cases hword
  exact ⟨word, rfl, hdash, hshell⟩

/-- Every line of the body of an accepted text. -/
theorem readLine_body {u : UnicodeTables} {line : List Char}
    (hforbidden : forbiddenItem u (flatItem u line) = none)
    (hheader : headerKind (flatItem u line) = none) :
    ReadAlike line (flatItem u line) ∧ PlainWhereShellBound (OpenSsh.readLine line) ∧
      ∀ name, (OpenSsh.readLine line).name = some name → name ∉ blockNames := by
  have hnothing : OpenSsh.readLine line = .nothing → PlainWhereShellBound (OpenSsh.readLine line) ∧
      ∀ name, (OpenSsh.readLine line).name = some name → name ∉ blockNames := by
    intro h
    rw [h]
    constructor
    · intro keyword arguments hsetting
      cases hsetting
    · intro name hname
      cases hname
  unfold flatItem at hforbidden hheader ⊢
  cases hline : classifyLine u line with
  | Blank =>
    simp only [hline, forbiddenItem] at hforbidden
    have hread := readLine_blank hline (by simpa using hforbidden)
    exact ⟨hread, hnothing hread⟩
  | Comment =>
    simp only [hline, forbiddenItem] at hforbidden
    have hread := readLine_comment hline (by simpa using hforbidden)
    exact ⟨hread, hnothing hread⟩
  | Directive d =>
    simp only [hline, forbiddenItem] at hforbidden hheader
    have hl := classifyLine_laid hline
    have ha := accepted_of_forbidden hl.clean hforbidden
    have hread := readLine_laid hl (spacedAlike_of_visible hl ha.visible) ha.keyword ha.quote
    refine ⟨⟨_, hread⟩, plainWhereShellBound_of_accepted hl ha hread, ?_⟩
    intro name hname hin
    rw [hread] at hname
    cases hname
    have hkey := key_of_name hl (blockNames_ascii _ hin) rfl
    rw [← hkey] at hin
    simp only [blockNames, List.mem_cons, List.not_mem_nil, or_false] at hin
    rcases hin with hhost | hmatch | hinclude
    · simp [headerKind, hhost] at hheader
    · simp [headerKind, hmatch] at hheader
    · exact ha.notInclude hinclude

/-- An accepted text is one Host block to both readers: OpenSSH reads the header with the
parser's patterns, reads the parser's keyword or nothing on every line of the body, none of
which starts a block or includes a file, and reads one plain argument wherever the value is
expanded into commands. -/
theorem validated_text_reads_alike (u : UnicodeTables) {alias_ text : List Char}
    (h : validateHostText u alias_ text = .ok ()) :
    ∃ header patterns body headLine bodyLines,
      (parseFile u text).1 = [.Host header patterns body] ∧
      OpenSsh.readLines text = headLine :: bodyLines ∧
      OpenSsh.readLine headLine = .setting header.keyword (some patterns) ∧
      asciiLowercase header.keyword = "host".toList ∧
      List.Forall₂ ReadAlike bodyLines body ∧
      (∀ line ∈ bodyLines, ∀ name, (OpenSsh.readLine line).name = some name → name ∉ blockNames) ∧
      ∀ line ∈ OpenSsh.readLines text, PlainWhereShellBound (OpenSsh.readLine line) := by
  obtain ⟨header, patterns, body, hparse, hpatterns, hheader, hbody⟩ := validateHostText_ok h
  have hgroup := hparse
  rw [parseFile_lines] at hgroup
  have hflat : ∀ item ∈ (OpenSsh.readLines text).map (flatItem u), IsFlat item := by
    intro item hitem
    obtain ⟨line, -, rfl⟩ := List.mem_map.mp hitem
    exact flatItem_isFlat u line
  obtain ⟨hlines, hkey, rfl, hnone⟩ := groupBlocks_eq_host hflat hgroup
  obtain ⟨headLine, bodyLines, hsplit, hhead, rfl⟩ := List.map_eq_cons_iff.mp hlines
  -- the header line
  have hlaid : Laid u headLine header := by
    unfold flatItem at hhead
    split at hhead
    next => cases hhead
    next => cases hhead
    next d hclass =>
      cases hhead
      exact classifyLine_laid hclass
  have haccepted := accepted_of_forbidden hlaid.clean hheader
  have hread := readLine_header hlaid haccepted hkey hpatterns
  have hname : asciiLowercase header.keyword = "host".toList :=
    asciiLowercase_of_lowercase u (blockNames_ascii _ List.mem_cons_self) (by simp) (hlaid.key ▸ hkey)
  -- the body lines
  have hall : ∀ line ∈ bodyLines, ReadAlike line (flatItem u line) ∧
      PlainWhereShellBound (OpenSsh.readLine line) ∧
      ∀ name, (OpenSsh.readLine line).name = some name → name ∉ blockNames := by
    intro line hline
    have hitem := List.mem_map_of_mem (f := flatItem u) hline
    exact readLine_body (hbody _ hitem) (hnone _ hitem)
  refine ⟨header, _, _, headLine, bodyLines, hparse, hsplit, hread, hname, ?_, ?_, ?_⟩
  · apply List.forall₂_map_right_iff.mpr
    apply List.forall₂_same.mpr
    intro line hline
    exact (hall line hline).1
  · intro line hline
    exact (hall line hline).2.2
  · intro line hline
    rw [hsplit] at hline
    rcases List.mem_cons.mp hline with rfl | hline
    · exact plainWhereShellBound_of_accepted hlaid haccepted hread
    · exact (hall line hline).2.1

namespace Sample

/-- Tables that lowercase ASCII and the Kelvin sign and leave every other character alone. -/
def asciiTables : UnicodeTables where
  lowercaseAt := fun _ c _ => if isAscii c then [c.toLower] else if c = '\u212a' then ['k'] else [c]
  isAlphanumeric := isAsciiAlphanumeric
  printsAsItself := isAscii
  lowercase_ascii := by
    intro before c after h
    simp [h]
  lowercase_other := by
    intro before c after h
    by_cases hk : c = '\u212a'
    · exact .inr ⟨hk, by simp [hk]; decide⟩
    · exact .inl ⟨c, by simp [h, hk], h⟩

def hostText : List Char := "Host web\n  HostName = 10.0.0.1 # office\n".toList

end Sample

theorem validated_sample_text_reads_alike :
    validateHostText Sample.asciiTables "web".toList Sample.hostText = .ok () ∧
    ∃ header patterns body headLine bodyLines,
      (parseFile Sample.asciiTables Sample.hostText).1 = [.Host header patterns body] ∧
      OpenSsh.readLines Sample.hostText = headLine :: bodyLines ∧
      OpenSsh.readLine headLine = .setting header.keyword (some patterns) ∧
      asciiLowercase header.keyword = "host".toList ∧
      List.Forall₂ ReadAlike bodyLines body ∧
      (∀ line ∈ bodyLines, ∀ name, (OpenSsh.readLine line).name = some name → name ∉ blockNames) ∧
      ∀ line ∈ OpenSsh.readLines Sample.hostText, PlainWhereShellBound (OpenSsh.readLine line) := by
  have hvalid : validateHostText Sample.asciiTables "web".toList Sample.hostText = .ok () := by
    decide +kernel
  exact ⟨hvalid, validated_text_reads_alike Sample.asciiTables hvalid⟩

end Sshelter.Sync.HostsFile
