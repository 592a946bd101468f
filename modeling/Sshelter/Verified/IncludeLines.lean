import Sshelter.Lib.JoinedWords
import Sshelter.Sync.IncludeList
import Sshelter.Verified.EditedText

/-! # One line lists the files of the app

What `ensure_include` and `release_include` do to the tokens of the lines.
-/

namespace Sshelter.Sync.IncludeList

open Text Config

variable {u : UnicodeTables}

/-! ## Tokens -/

/-- A token that is one word and not the agent's. -/
def Listable (token : List Char) : Prop := IsWord isWhitespace token ∧ token ≠ agentIncludeToken

theorem agentToken_not_ours : isOurIncludeToken agentIncludeToken = false := by decide +kernel

theorem splitWhitespace_join {tokens : List (List Char)} (each : ∀ t ∈ tokens, IsWord isWhitespace t) :
    splitWhitespace (joinSpace tokens) = tokens := words_intercalate_words (by decide) each

theorem enabledInclude_eq_some {item : Item} {d : Directive} : enabledInclude item = some d ↔
    item = .Directive d ∧ d.key = "include".toList ∧ d.serializesAsComment = false := by
  cases item with
  | Directive e =>
    simp only [enabledInclude, Option.ite_none_right_eq_some, Option.some.injEq, Item.Directive.injEq]
    constructor
    · rintro ⟨live, rfl⟩
      exact ⟨rfl, live⟩
    · rintro ⟨rfl, live⟩
      exact ⟨live, rfl⟩
  | _ => simp [enabledInclude]

/-- A rewritten line is live. -/
theorem enabledInclude_withTokens {item : Item} {d : Directive} (live : enabledInclude item = some d)
    (tokens : List (List Char)) : enabledInclude (withTokens d tokens) =
      some { d with value := joinSpace tokens, dirty := true, enabled := true } := by
  obtain ⟨_, key, _⟩ := enabledInclude_eq_some.mp live
  exact enabledInclude_eq_some.mpr ⟨rfl, key, rfl⟩

/-- The words that a line lists. -/
def lineTokens (item : Item) : List (List Char) :=
  ((enabledInclude item).map fun d => splitWhitespace d.value).getD []

theorem lineTokens_live {item : Item} {d : Directive} (live : enabledInclude item = some d) :
    lineTokens item = splitWhitespace d.value := by rw [lineTokens, live]; rfl

theorem hasOurToken_eq (item : Item) : hasOurToken item = (lineTokens item).any isOurIncludeToken := by
  cases live : enabledInclude item <;> simp [hasOurToken, lineTokens, live]

theorem isAgentInclude_eq (item : Item) : isAgentInclude item = (lineTokens item).contains agentIncludeToken := by
  cases live : enabledInclude item <;> simp [isAgentInclude, lineTokens, live]

theorem lineTokens_words {item : Item} {t : List Char} (member : t ∈ lineTokens item) : IsWord isWhitespace t := by
  unfold lineTokens at member
  cases live : enabledInclude item with
  | none => simp [live] at member
  | some d =>
    rw [live] at member
    exact mem_words member

/-- What is left of a line. -/
theorem withoutOurTokens_cases (item : Item) :
    (hasOurToken item = false ∧ withoutOurTokens item = some item) ∨
      (hasOurToken item = true ∧ withoutOurTokens item = none ∧ ∀ t ∈ lineTokens item, isOurIncludeToken t = true) ∨
      (hasOurToken item = true ∧ ∃ d left, enabledInclude item = some d ∧ withoutOurTokens item = some left ∧
        left = withTokens d ((lineTokens item).filter fun t => !isOurIncludeToken t) ∧
        lineTokens left = (lineTokens item).filter fun t => !isOurIncludeToken t) := by
  cases live : enabledInclude item with
  | none => exact .inl ⟨by rw [hasOurToken, live]; rfl, by rw [withoutOurTokens, live]⟩
  | some d =>
    have tokens := lineTokens_live live
    simp only [hasOurToken_eq, withoutOurTokens, live, ← tokens]
    cases ours : (lineTokens item).any isOurIncludeToken with
    | false => exact .inl ⟨rfl, rfl⟩
    | true =>
      right
      simp only [if_true]
      by_cases empty : ((lineTokens item).filter fun t => !isOurIncludeToken t).isEmpty = true
      · refine .inl ⟨trivial, if_pos empty, fun t member => ?_⟩
        have none_ := List.filter_eq_nil_iff.mp (List.isEmpty_iff.mp empty) t member
        simpa using none_
      · refine .inr ⟨trivial, d, _, rfl, if_neg empty, rfl, ?_⟩
        rw [lineTokens_live (enabledInclude_withTokens live _)]
        exact splitWhitespace_join fun t member => lineTokens_words (List.mem_of_mem_filter member)

theorem withoutOurTokens_clean {item left : Item} (result : withoutOurTokens item = some left) :
    hasOurToken left = false := by
  obtain ⟨clean, same⟩ | ⟨_, gone, _⟩ | ⟨_, _, _, _, kept, _, tokens⟩ := withoutOurTokens_cases item
  · rw [same] at result
    cases result
    exact clean
  · rw [gone] at result
    cases result
  · rw [kept] at result
    cases result
    rw [hasOurToken_eq, tokens, List.any_eq_false]
    intro t member
    simpa using List.of_mem_filter member

/-- A line above ours stays above it. -/
theorem withoutOurTokens_above {item : Item} (above : staysAbove item = true) :
    ∃ left, withoutOurTokens item = some left ∧ staysAbove left = true := by
  obtain ⟨_, same⟩ | ⟨ours, _, all⟩ | ⟨ours, d, left, live, kept, rfl, tokens⟩ := withoutOurTokens_cases item
  · exact ⟨item, same, above⟩
  all_goals
    have agent : agentIncludeToken ∈ lineTokens item := by
      cases item with
      | Directive d => simpa [staysAbove, isAgentInclude_eq] using above
      | _ => simp [hasOurToken, enabledInclude] at ours
  · have contra := all _ agent
    rw [agentToken_not_ours] at contra
    cases contra
  · refine ⟨_, kept, ?_⟩
    have still : agentIncludeToken ∈ lineTokens (withTokens d ((lineTokens item).filter fun t => !isOurIncludeToken t)) := by
      rw [tokens]
      exact List.mem_filter.mpr ⟨agent, by rw [agentToken_not_ours]; rfl⟩
    rw [withTokens] at still ⊢
    simpa [staysAbove, isAgentInclude_eq] using still

/-! ## The line at the top -/

/-- The place of the line splits the items. -/
theorem syncIncludeIndex_split (items : List Item) : ∃ above below, items = above ++ below ∧
    above.length = syncIncludeIndex items ∧ (∀ item ∈ above, staysAbove item = true) ∧
    ∀ item, below.head? = some item → staysAbove item = false := by
  induction items with
  | nil => exact ⟨[], [], rfl, rfl, by simp, by simp⟩
  | cons item rest ih =>
    cases here : staysAbove item with
    | false =>
      refine ⟨[], item :: rest, rfl, by simp [syncIncludeIndex, List.findIdx_cons, here], by simp, ?_⟩
      intro first head
      cases head
      exact here
    | true =>
      obtain ⟨above, below, rfl, length, all, first⟩ := ih
      refine ⟨item :: above, below, rfl, ?_, List.forall_mem_cons.mpr ⟨here, all⟩, first⟩
      rw [List.length_cons, length, syncIncludeIndex, syncIncludeIndex, List.findIdx_cons]
      simp [here]

theorem syncIncludeIndex_append {above below : List Item} (all : ∀ item ∈ above, staysAbove item = true)
    (first : ∀ item, below.head? = some item → staysAbove item = false) :
    syncIncludeIndex (above ++ below) = above.length := by
  induction above with
  | nil =>
    cases below with
    | nil => rfl
    | cons item rest => simp [syncIncludeIndex, List.findIdx_cons, first item rfl]
  | cons item rest ih =>
    obtain ⟨here, others⟩ := List.forall_mem_cons.mp all
    have step := ih others
    rw [syncIncludeIndex] at step
    rw [List.cons_append, syncIncludeIndex, List.findIdx_cons, step]
    simp [here]

theorem insertIdx_append (above below : List Item) (line : Item) :
    (above ++ below).insertIdx above.length line = above ++ line :: below := by
  induction above with
  | nil => rfl
  | cons item rest ih => simpa using ih

/-- Our tokens are in the one line at the top, which lists just them, or nowhere. -/
def OursAtTop (items : List Item) (tokens : List (List Char)) : Prop :=
  if tokens = [] then ∀ item ∈ items, hasOurToken item = false
  else ∃ above line below, items = above ++ line :: below ∧ above.length = syncIncludeIndex items ∧
    (∃ d, enabledInclude line = some d ∧ splitWhitespace d.value = tokens) ∧
    ∀ item ∈ above ++ below, hasOurToken item = false

theorem includeIsCorrect_iff (items : List Item) (tokens : List (List Char)) :
    includeIsCorrect items tokens = true ↔ OursAtTop items tokens := by
  unfold includeIsCorrect OursAtTop
  by_cases none_ : tokens = []
  · simp [none_]
  · rw [if_neg (by simpa using none_), if_neg none_]
    simp only [Bool.and_eq_true, Bool.not_eq_true', List.any_eq_false]
    obtain ⟨above, below, parts, length, _, _⟩ := syncIncludeIndex_split items
    have place : items[syncIncludeIndex items]? = below.head? := by
      rw [← length]
      conv_lhs => rw [parts]
      rw [List.getElem?_append_right (Nat.le_refl _), Nat.sub_self, List.head?_eq_getElem?]
    have others : items.eraseIdx (syncIncludeIndex items) = above ++ below.tail := by
      rw [← length]
      conv_lhs => rw [parts]
      rw [List.eraseIdx_append_of_length_le (Nat.le_refl _), Nat.sub_self, List.eraseIdx_zero]
    rw [place, others]
    constructor
    · rintro ⟨top, clean⟩
      obtain ⟨d, found, tokens_⟩ := (Option.any_eq_true _ _).mp top
      obtain ⟨line, head, live⟩ := Option.bind_eq_some_iff.mp found
      obtain ⟨rest, rfl⟩ := List.head?_eq_some_iff.mp head
      exact ⟨above, line, rest, parts, length, ⟨d, live, by simpa using tokens_⟩, fun item member => by
        simpa using clean item member⟩
    · rintro ⟨above', line, rest, parts', length', ⟨d, live, tokens_⟩, clean⟩
      have same := List.append_inj (parts.symm.trans parts') (length.trans length'.symm)
      obtain ⟨rfl, rfl⟩ := same
      refine ⟨(Option.any_eq_true _ _).mpr ⟨d, by simp [live], by simpa using tokens_⟩, fun item member => ?_⟩
      simpa using clean item member

theorem lowercase_include (u : UnicodeTables) : lowercase u "Include".toList = "include".toList := by
  rw [lowercase, lowercaseFrom_ascii u [] (by simp [isAscii])]
  rfl

/-- The new line lists the tokens. -/
theorem newLine_tokens {tokens : List (List Char)} (each : ∀ t ∈ tokens, IsWord isWhitespace t) :
    ∃ d, enabledInclude (.Directive (.new u "Include".toList (joinSpace tokens) [])) = some d ∧
      splitWhitespace d.value = tokens := by
  refine ⟨_, enabledInclude_eq_some.mpr ⟨rfl, lowercase_include u, rfl⟩, ?_⟩
  have kept : sanitizeValue (joinSpace tokens) = joinSpace tokens := by
    rw [sanitizeValue, List.filter_eq_self]
    intro c member
    by_cases blank : c = ' '
    · subst blank
      decide
    · obtain ⟨t, inTokens, member⟩ := (mem_intercalate blank tokens).mp member
      have letter := (each t inTokens).letters c member
      have notReturn : c ≠ '\r' := by
        rintro rfl
        cases letter
      have notNewline : c ≠ '\n' := by
        rintro rfl
        cases letter
      simp [notReturn, notNewline]
  show splitWhitespace (sanitizeValue (joinSpace tokens)) = tokens
  rw [kept, splitWhitespace_join each]

theorem filterMap_above {above : List Item} (all : ∀ item ∈ above, staysAbove item = true) :
    (above.filterMap withoutOurTokens).length = above.length ∧
      ∀ item ∈ above.filterMap withoutOurTokens, staysAbove item = true := by
  induction above with
  | nil => simp
  | cons item rest ih =>
    obtain ⟨here, others⟩ := List.forall_mem_cons.mp all
    obtain ⟨left, kept, stays⟩ := withoutOurTokens_above here
    obtain ⟨length, later⟩ := ih others
    rw [List.filterMap_cons_some kept]
    exact ⟨by simp [length], List.forall_mem_cons.mpr ⟨stays, later⟩⟩

/-- Where the line goes. -/
theorem insertIdx_top (items : List Item) (line : Item) : ∃ above below, items.filterMap withoutOurTokens = above ++ below ∧
    (items.filterMap withoutOurTokens).insertIdx (syncIncludeIndex items) line = above ++ line :: below ∧
    (∀ item ∈ above, staysAbove item = true) ∧ above.length = syncIncludeIndex items := by
  obtain ⟨above, below, parts, length, all, _⟩ := syncIncludeIndex_split items
  obtain ⟨same, stays⟩ := filterMap_above all
  have split : items.filterMap withoutOurTokens =
      above.filterMap withoutOurTokens ++ below.filterMap withoutOurTokens := by
    rw [parts, List.filterMap_append]
  refine ⟨_, _, split, ?_, stays, same.trans length⟩
  rw [split, ← length, ← same, insertIdx_append]

theorem ensureInclude_top (items : List Item) {tokens : List (List Char)} (each : ∀ t ∈ tokens, Listable t) :
    OursAtTop (ensureInclude u items tokens).1 tokens := by
  unfold ensureInclude
  cases correct : includeIsCorrect items tokens with
  | true => simpa using (includeIsCorrect_iff items tokens).mp correct
  | false =>
    have clean : ∀ item ∈ items.filterMap withoutOurTokens, hasOurToken item = false := by
      intro item member
      obtain ⟨old, _, result⟩ := List.mem_filterMap.mp member
      exact withoutOurTokens_clean result
    by_cases none_ : tokens = []
    · simpa [OursAtTop, none_] using clean
    · rw [if_neg (by simp), if_neg (by simpa using none_), OursAtTop, if_neg none_]
      obtain ⟨d, live, listed⟩ := newLine_tokens (u := u) fun t member => (each t member).1
      obtain ⟨above, below, split, inserted, stays, _⟩ := insertIdx_top items
        (.Directive (.new u "Include".toList (joinSpace tokens) []))
      have notAbove : staysAbove (.Directive (.new u "Include".toList (joinSpace tokens) [])) = false := by
        simp only [staysAbove, isAgentInclude, live, Option.any_some, listed]
        simpa using fun member => (each _ member).2 rfl
      rw [split] at clean
      refine ⟨above, _, below, inserted, ?_, ⟨d, live, listed⟩, clean⟩
      rw [inserted]
      exact (syncIncludeIndex_append stays fun item head => by cases head; exact notAbove).symm

/-- A second call changes nothing exactly when every token is one word and none is the agent's. -/
theorem ensureInclude_idempotent (items : List Item) (tokens : List (List Char)) :
    ensureInclude u (ensureInclude u items tokens).1 tokens = ((ensureInclude u items tokens).1, false) ↔
      ∀ t ∈ tokens, Listable t := by
  constructor
  · intro again t member
    have correct : includeIsCorrect (ensureInclude u items tokens).1 tokens = true := by
      by_contra other
      rw [ensureInclude, if_neg other] at again
      split at again <;> cases (Prod.mk.inj again).2
    have atTop := (includeIsCorrect_iff _ _).mp correct
    have some_ : tokens ≠ [] := List.ne_nil_of_mem member
    rw [OursAtTop, if_neg some_] at atTop
    obtain ⟨above, line, below, parts, length, ⟨d, live, listed⟩, _⟩ := atTop
    refine ⟨mem_words (s := d.value) (by rw [← listed] at member; exact member), ?_⟩
    rintro rfl
    obtain ⟨above', below', parts', length', _, first⟩ := syncIncludeIndex_split (ensureInclude u items tokens).1
    obtain ⟨rfl, rfl⟩ := List.append_inj (parts.symm.trans parts') (length.trans length'.symm)
    have notAbove := first line rfl
    obtain ⟨rfl, _⟩ := enabledInclude_eq_some.mp live
    rw [staysAbove, isAgentInclude, live] at notAbove
    · simp only [Option.any_some, listed, List.contains_eq_mem, decide_eq_false_iff_not] at notAbove
      exact notAbove member
    all_goals
      intro _ same
      cases same
  · intro each
    have correct := (includeIsCorrect_iff _ _).mpr (ensureInclude_top (u := u) items each)
    rw [ensureInclude, if_pos correct]

/-! ## Leaving the account -/

/-- The tokens of all live top-level Includes, in order. -/
def listedTokens (items : List Item) : List (List Char) := items.flatMap lineTokens

theorem flatMap_enabledInclude (items : List Item) :
    ((items.filterMap enabledInclude).flatMap fun d => splitWhitespace d.value) = listedTokens items := by
  induction items with
  | nil => rfl
  | cons item rest ih =>
    rw [listedTokens, List.flatMap_cons, ← listedTokens, ← ih]
    cases live : enabledInclude item with
    | none =>
      rw [List.filterMap_cons_none live]
      simp [lineTokens, live]
    | some d => rw [List.filterMap_cons_some live, List.flatMap_cons, lineTokens_live live]

section Release

variable (globMatches : List Char → List Char → Bool) (kept : List (List Char × List Char)) (exists_ : List Char → Bool)

/-- The new token of a file that moved. -/
def movedTo (old : List Char) : Option (List Char) := (kept.find? fun entry => entry.1 = old).map Prod.snd

/-- A token that must stay: not the app's, or one of a file that is there and did not move. -/
def mustStay (t : List Char) : Bool := !isOurIncludeToken t || ((movedTo kept t).isNone && exists_ t)

variable {kept} in
theorem movedTo_mem {old new : List Char} (moved : movedTo kept old = some new) : (old, new) ∈ kept := by
  obtain ⟨⟨key, value⟩, found, rfl⟩ := Option.map_eq_some_iff.mp moved
  have same := List.find?_some found
  simp only [decide_eq_true_eq] at same
  subst same
  exact List.mem_of_find?_eq_some found

/-- What one token becomes. -/
theorem releaseToken_cases (placed : List (List Char)) (t : List Char) :
    (isOurIncludeToken t = false ∧ releaseToken globMatches kept exists_ placed t = ([t], placed, false)) ∨
      (isOurIncludeToken t = true ∧ ∃ new, movedTo kept t = some new ∧
        releaseToken globMatches kept exists_ placed t = ([new], placed, true)) ∨
      (isOurIncludeToken t = true ∧ movedTo kept t = none ∧ ∃ covered : List (List Char × List Char),
        (∀ entry, entry ∈ covered ↔ entry ∈ kept ∧ entry.1 ∉ placed ∧ globCovers globMatches t entry.1 = true) ∧
        releaseToken globMatches kept exists_ placed t =
          (covered.map Prod.snd ++ (if exists_ t then [t] else []), placed ++ covered.map Prod.fst,
            !covered.isEmpty || !exists_ t)) := by
  cases ours : isOurIncludeToken t with
  | false => exact .inl ⟨rfl, by simp [releaseToken, ours]⟩
  | true =>
    cases found : kept.find? fun entry => entry.1 = t with
    | some entry =>
      exact .inr (.inl ⟨rfl, entry.2, by simp [movedTo, found], by simp [releaseToken, ours, found]⟩)
    | none =>
      refine .inr (.inr ⟨rfl, by simp [movedTo, found],
        (kept.filter fun entry => !placed.contains entry.1 && globCovers globMatches t entry.1).mergeSort keptLe,
        fun entry => by simp [List.mem_mergeSort], ?_⟩)
      simp only [releaseToken, ours, found, Bool.not_true, Bool.false_eq_true, if_false]

theorem releaseToken_stays {t : List Char} (placed : List (List Char)) (stays : mustStay kept exists_ t = true) :
    t ∈ (releaseToken globMatches kept exists_ placed t).1 := by
  simp only [mustStay, Bool.or_eq_true, Bool.not_eq_true', Bool.and_eq_true, Option.isNone_iff_eq_none] at stays
  obtain ⟨_, result⟩ | ⟨ours, _, moved, _⟩ | ⟨ours, _, covered, _, result⟩ :=
    releaseToken_cases globMatches kept exists_ placed t
  · simp [result]
  · simp [ours, moved] at stays
  · rw [ours] at stays
    simp [result, stays.resolve_left (by simp)]

/-- A file placed by a token is listed by it. -/
theorem releaseToken_placed {placed : List (List Char)} {t old new : List Char} (moved : movedTo kept old = some new)
    (here : old ∈ (releaseToken globMatches kept exists_ placed t).2.1) : old ∈ placed ∨
      (new ∈ (releaseToken globMatches kept exists_ placed t).1 ∧
        (releaseToken globMatches kept exists_ placed t).2.2 = true) := by
  obtain ⟨_, result⟩ | ⟨_, _, _, result⟩ | ⟨_, _, covered, covers, result⟩ :=
    releaseToken_cases globMatches kept exists_ placed t
  · rw [result] at here
    exact .inl here
  · rw [result] at here
    exact .inl here
  · rw [result] at here ⊢
    simp only [List.mem_append, List.mem_map] at here ⊢
    obtain here | ⟨entry, member, rfl⟩ := here
    · exact .inl here
    · obtain ⟨_, notPlaced, covered_⟩ := (covers entry).mp member
      have own : (entry.1, new) ∈ covered := (covers _).mpr ⟨movedTo_mem moved, notPlaced, covered_⟩
      refine .inr ⟨.inl ⟨_, own, rfl⟩, ?_⟩
      have some_ : covered.isEmpty = false := List.isEmpty_eq_false_iff.mpr (List.ne_nil_of_mem own)
      simp [some_]

theorem releaseToken_covers {placed : List (List Char)} {t old new : List Char} (moved : movedTo kept old = some new)
    (ours : isOurIncludeToken t = true) (own : movedTo kept t = none) (covers : globCovers globMatches t old = true) :
    old ∈ (releaseToken globMatches kept exists_ placed t).2.1 := by
  obtain ⟨other, _⟩ | ⟨_, _, other, _⟩ | ⟨_, _, covered, covers', result⟩ :=
    releaseToken_cases globMatches kept exists_ placed t
  · rw [ours] at other
    cases other
  · rw [own] at other
    cases other
  · rw [result]
    simp only [List.mem_append, List.mem_map]
    by_cases already : old ∈ placed
    · exact .inl already
    · exact .inr ⟨(old, new), (covers' _).mpr ⟨movedTo_mem moved, already, covers⟩, rfl⟩

theorem releaseToken_subset (placed : List (List Char)) (t : List Char) :
    placed ⊆ (releaseToken globMatches kept exists_ placed t).2.1 := by
  obtain ⟨_, result⟩ | ⟨_, _, _, result⟩ | ⟨_, _, covered, _, result⟩ :=
    releaseToken_cases globMatches kept exists_ placed t
  · rw [result]
    exact List.Subset.refl _
  · rw [result]
    exact List.Subset.refl _
  · rw [result]
    exact List.subset_append_left _ _

/-- What a line becomes: the tokens that must stay are there in order, a moved file that it lists or that one of its
globs covers is listed by its new token, and placed files are listed. -/
theorem releaseLine_spec (placed : List (List Char)) {ts : List (List Char)} (each : ∀ t ∈ ts, IsWord isWhitespace t) :
    let line := releaseLine globMatches kept exists_ placed ts
    (ts.filter (mustStay kept exists_)).Sublist (line.1.flatMap splitWhitespace) ∧ placed ⊆ line.2.1 ∧
      ∀ old new, movedTo kept old = some new →
        (old ∈ line.2.1 → old ∈ placed ∨ (new ∈ line.1 ∧ line.2.2 = true)) ∧
        (old ∈ ts → isOurIncludeToken old = true → new ∈ line.1 ∧ line.2.2 = true) ∧
        ∀ t ∈ ts, isOurIncludeToken t = true → movedTo kept t = none → globCovers globMatches t old = true →
          old ∈ line.2.1 := by
  induction ts generalizing placed with
  | nil => simp [releaseLine]
  | cons t rest ih =>
    obtain ⟨word, others⟩ := List.forall_mem_cons.mp each
    obtain ⟨stay, keep, moves⟩ := ih (releaseToken globMatches kept exists_ placed t).2.1 others
    have grow := releaseToken_subset globMatches kept exists_ placed t
    simp only [releaseLine]
    refine ⟨?_, List.Subset.trans grow keep, fun old new moved => ?_⟩
    · rw [List.flatMap_append]
      cases stays : mustStay kept exists_ t with
      | false =>
        rw [List.filter_cons_of_neg (by simp [stays])]
        exact List.Sublist.trans stay (List.sublist_append_right _ _)
      | true =>
        rw [List.filter_cons_of_pos stays]
        have here := releaseToken_stays globMatches kept exists_ placed stays
        have listed : t ∈ (releaseToken globMatches kept exists_ placed t).1.flatMap splitWhitespace :=
          List.mem_flatMap.mpr ⟨t, here, by rw [splitWhitespace, word.words]; exact List.mem_singleton_self t⟩
        exact List.Sublist.append (List.singleton_sublist.mpr listed) stay
    · obtain ⟨placed_, explicit, covered⟩ := moves old new moved
      -- a file is placed by this token or by a later one of the line
      have later : old ∈ (releaseLine globMatches kept exists_ (releaseToken globMatches kept exists_ placed t).2.1 rest).2.1 →
          old ∈ placed ∨ (new ∈ (releaseToken globMatches kept exists_ placed t).1 ++
            (releaseLine globMatches kept exists_ (releaseToken globMatches kept exists_ placed t).2.1 rest).1 ∧
            ((releaseToken globMatches kept exists_ placed t).2.2 || (releaseLine globMatches kept exists_
              (releaseToken globMatches kept exists_ placed t).2.1 rest).2.2) = true) := by
        intro here
        obtain here | ⟨member, changed⟩ := placed_ here
        · obtain here | ⟨member, changed⟩ := releaseToken_placed globMatches kept exists_ moved here
          · exact .inl here
          · exact .inr ⟨List.mem_append_left _ member, by rw [changed, Bool.true_or]⟩
        · exact .inr ⟨List.mem_append_right _ member, by rw [changed, Bool.or_true]⟩
      refine ⟨later, fun member ours => ?_, fun t' member ours own covers => ?_⟩
      · obtain rfl | member := List.mem_cons.mp member
        · obtain ⟨other, _⟩ | ⟨_, new', moved', result⟩ | ⟨_, other, _⟩ :=
            releaseToken_cases globMatches kept exists_ placed old
          · rw [ours] at other
            cases other
          · rw [moved] at moved'
            cases moved'
            rw [result]
            exact ⟨List.mem_append_left _ List.mem_cons_self, rfl⟩
          · rw [moved] at other
            cases other
        · obtain ⟨listed, changed⟩ := explicit member ours
          exact ⟨List.mem_append_right _ listed, by rw [changed, Bool.or_true]⟩
      · obtain rfl | member := List.mem_cons.mp member
        · exact keep (releaseToken_covers globMatches kept exists_ moved ours own covers)
        · exact covered t' member ours own covers

theorem listedTokens_cons (item : Item) (rest : List Item) :
    listedTokens (item :: rest) = lineTokens item ++ listedTokens rest := rfl

/-- A rewritten line lists the words of its tokens. -/
theorem lineTokens_withTokens {item : Item} {d : Directive} (live : enabledInclude item = some d)
    (tokens : List (List Char)) : lineTokens (withTokens d tokens) = tokens.flatMap splitWhitespace := by
  rw [lineTokens_live (enabledInclude_withTokens live tokens)]
  exact words_intercalate (by decide) tokens

/-- What became of the lines: tokens that must stay are there in order; a moved file that is listed by its own token,
or only by a glob and is not placed yet, is listed by its new token. -/
def Released (placed : List (List Char)) (items out : List Item) : Prop :=
  ((listedTokens items).filter (mustStay kept exists_)).Sublist (listedTokens out) ∧
    ∀ old new, movedTo kept old = some new → IsWord isWhitespace new →
      (old ∈ listedTokens items → isOurIncludeToken old = true → new ∈ listedTokens out) ∧
      (old ∉ placed → ∀ t ∈ listedTokens items, isOurIncludeToken t = true → movedTo kept t = none →
        globCovers globMatches t old = true → new ∈ listedTokens out)

/-- One line and the lines after it. -/
theorem Released.cons {placed placed' : List (List Char)} {item : Item} {rest here later : List Item}
    (stays : ((lineTokens item).filter (mustStay kept exists_)).Sublist (listedTokens here))
    (moves : ∀ old new, movedTo kept old = some new → IsWord isWhitespace new →
      (old ∈ placed' → old ∈ placed ∨ new ∈ listedTokens here) ∧
      (old ∈ lineTokens item → isOurIncludeToken old = true → new ∈ listedTokens here) ∧
      ∀ t ∈ lineTokens item, isOurIncludeToken t = true → movedTo kept t = none →
        globCovers globMatches t old = true → old ∈ placed')
    (released : Released globMatches kept exists_ placed' rest later) :
    Released globMatches kept exists_ placed (item :: rest) (here ++ later) := by
  obtain ⟨stay, others⟩ := released
  have split : listedTokens (here ++ later) = listedTokens here ++ listedTokens later := List.flatMap_append
  refine ⟨?_, fun old new moved word => ?_⟩
  · rw [listedTokens_cons, List.filter_append, split]
    exact List.Sublist.append stays stay
  · obtain ⟨placed_, explicit, covered⟩ := moves old new moved word
    obtain ⟨explicitLater, coveredLater⟩ := others old new moved word
    rw [split, listedTokens_cons]
    refine ⟨fun member ours => ?_, fun notPlaced t member ours own covers => ?_⟩
    · obtain member | member := List.mem_append.mp member
      · exact List.mem_append_left _ (explicit member ours)
      · exact List.mem_append_right _ (explicitLater member ours)
    · by_cases here_ : old ∈ placed'
      · exact List.mem_append_left _ ((placed_ here_).resolve_left notPlaced)
      · obtain member | member := List.mem_append.mp member
        · exact absurd (covered t member ours own covers) here_
        · exact List.mem_append_right _ (coveredLater here_ t member ours own covers)

theorem releaseItems_released (placed : List (List Char)) (items : List Item) :
    Released globMatches kept exists_ placed items (releaseItems globMatches kept exists_ placed items).1 := by
  induction items generalizing placed with
  | nil => exact ⟨by simp [listedTokens], by simp [listedTokens]⟩
  | cons item rest ih =>
    simp only [releaseItems]
    split
    · next none_ =>
      -- a line without a token of the app stays as it is
      have clean : ∀ t ∈ lineTokens item, isOurIncludeToken t = false := by
        intro t member
        cases live : enabledInclude item with
        | none => simp [lineTokens, live] at member
        | some d =>
          rw [live, Option.filter_eq_none_iff] at none_
          have clean := none_ d rfl
          rw [lineTokens_live live] at member
          simp only [List.any_eq_true, not_exists, not_and, Bool.not_eq_true] at clean
          exact clean t member
      have other {t : List Char} (member : t ∈ lineTokens item) (ours : isOurIncludeToken t = true) : False := by
        rw [clean t member] at ours
        cases ours
      refine @Released.cons globMatches kept exists_ placed placed item rest [item] _ ?_ (fun old new _ _ => ⟨.inl, ?_, ?_⟩) (ih placed)
      · simp [listedTokens]
      · exact fun member ours => (other member ours).elim
      · exact fun t member ours => (other member ours).elim
    · next d found =>
      obtain ⟨live, _⟩ := Option.filter_eq_some_iff.mp found
      have tokens := lineTokens_live live
      have words_ : ∀ t ∈ splitWhitespace d.value, IsWord isWhitespace t := fun t member => mem_words member
      obtain ⟨stay, _, moves⟩ := releaseLine_spec globMatches kept exists_ placed words_
      rw [← tokens] at stay moves ⊢
      generalize releaseLine globMatches kept exists_ placed (lineTokens item) = line at stay moves ⊢
      obtain ⟨after, placed', changed⟩ := line
      simp only at stay moves ⊢
      -- whatever is left of the line, the rest of the file is released after it
      have front (here : List Item) (stays : ((lineTokens item).filter (mustStay kept exists_)).Sublist (listedTokens here))
          (lists : ∀ new, IsWord isWhitespace new → new ∈ after → changed = true → new ∈ listedTokens here) :
          Released globMatches kept exists_ placed (item :: rest)
            (here ++ (releaseItems globMatches kept exists_ placed' rest).1) := by
        refine Released.cons globMatches kept exists_ stays (fun old new moved word => ?_) (ih placed')
        obtain ⟨placed_, explicit, covered⟩ := moves old new moved
        refine ⟨fun member => ?_, fun member ours => ?_, covered⟩
        · exact (placed_ member).imp_right fun listed => lists new word listed.1 listed.2
        · exact lists new word (explicit member ours).1 (explicit member ours).2
      cases changed with
      | false =>
        refine front [item] ?_ fun _ _ _ changed => by cases changed
        simp [listedTokens]
      | true =>
        simp only [Bool.not_true, Bool.false_eq_true, if_false]
        split
        · next empty =>
          rw [List.isEmpty_iff.mp empty] at stay
          exact front [] stay fun new _ member => by simp [List.isEmpty_iff.mp empty] at member
        · have listed := lineTokens_withTokens live after
          refine front [withTokens d after] (by simpa [listedTokens, listed] using stay) fun new word member _ => ?_
          simp only [listedTokens, List.flatMap_cons, List.flatMap_nil, List.append_nil, listed]
          exact List.mem_flatMap.mpr ⟨new, member, by rw [splitWhitespace, word.words]; exact List.mem_singleton_self new⟩

end Release

end Sshelter.Sync.IncludeList
