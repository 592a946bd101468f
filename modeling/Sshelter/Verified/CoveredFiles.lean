import Sshelter.Config.NewFile
import Sshelter.Config.OpenSshInclude

/-! # A planned file is read by the pattern that covers it

A plan without an `Include` line to add says that a pattern of the main file covers the new file.
The plan only looks at the text before the first and after the last star of the pattern; whether
ssh reads the file depends on the rest of it too, and on a dot at the front of the name.
-/

namespace Sshelter.Config.NewFile

open Text Glob OpenSsh

/-! ## The text around the stars -/

def notStar (c : Char) : Bool := c ≠ '*'

/-- The pattern from its first to its last star. -/
def starsPart (pattern : List Char) : List Char := (pattern.dropWhile notStar).rdropWhile notStar

theorem rtakeWhile_append {p : Char → Bool} {a b : List Char} (stops : ∃ c ∈ b, p c = false) :
    (a ++ b).rtakeWhile p = b.rtakeWhile p := by
  have short : (b.reverse.takeWhile p).length ≠ b.reverse.length := by
    intro full
    have all := List.takeWhile_eq_self_iff.mp ((List.takeWhile_prefix p).eq_of_length full)
    obtain ⟨c, member, stop⟩ := stops
    rw [all c (List.mem_reverse.mpr member)] at stop
    cases stop
  rw [List.rtakeWhile, List.rtakeWhile, List.reverse_append, List.takeWhile_append, if_neg short]

/-- A pattern with a star in it. -/
structure SplitAtStars (pattern before stars after : List Char) : Prop where
  parts : pattern = before ++ stars ++ after
  first : stars.head? = some '*'
  last : stars.getLast? = some '*'
  noneBefore : '*' ∉ before
  noneAfter : '*' ∉ after

theorem splitAtStars {pattern : List Char} (star : '*' ∈ pattern) :
    SplitAtStars pattern (pattern.takeWhile notStar) (starsPart pattern) (pattern.rtakeWhile notStar) := by
  have whole := List.takeWhile_append_dropWhile (p := notStar) (l := pattern)
  have stop : ∃ c ∈ pattern.dropWhile notStar, notStar c = false := by
    rw [← whole] at star
    obtain before | behind := List.mem_append.mp star
    · cases List.mem_takeWhile_imp before
    · exact ⟨'*', behind, rfl⟩
  have after : pattern.rtakeWhile notStar = (pattern.dropWhile notStar).rtakeWhile notStar := by
    conv_lhs => rw [← whole]
    exact rtakeWhile_append stop
  have some_ : starsPart pattern ≠ [] := by
    intro empty
    obtain ⟨c, member, stops⟩ := stop
    rw [List.rdropWhile_eq_nil_iff.mp empty c member] at stops
    cases stops
  have rest : starsPart pattern ++ (pattern.dropWhile notStar).rtakeWhile notStar = pattern.dropWhile notStar :=
    List.rdropWhile_append_rtakeWhile
  refine ⟨?_, ?_, ?_, ?_, ?_⟩
  · rw [after, List.append_assoc, rest, whole]
  · have head := List.head?_dropWhile_not notStar pattern
    rw [← rest, List.head?_append] at head
    obtain ⟨c, more, shape⟩ := List.exists_cons_of_ne_nil some_
    rw [shape] at head ⊢
    simpa [notStar] using head
  · have final := List.rdropWhile_last_not notStar (pattern.dropWhile notStar) some_
    rw [List.getLast?_eq_some_getLast some_]
    simpa [notStar, starsPart] using final
  · intro member
    cases List.mem_takeWhile_imp member
  · intro member
    cases List.mem_rtakeWhile_imp member

/-! ## The name of the file -/

theorem byteLen_append (a b : List Char) : byteLen (a ++ b) = byteLen a + byteLen b := by
  simp [byteLen]

theorem byteLen_pos {a : List Char} (some_ : a ≠ []) : 0 < byteLen a := by
  obtain ⟨c, rest, rfl⟩ := List.exists_cons_of_ne_nil some_
  have := c.utf8Size_pos
  simp only [byteLen, List.map_cons, List.sum_cons]
  omega

/-- The part of the name that stands for the stars. -/
def ownPart (family : GlobFamily) (name : List Char) : List Char :=
  if alreadyNamed family name then (name.drop family.beforeStar.length).rdrop family.afterStar.length else name

/-- The name is put between the texts around the stars, or was there already. -/
theorem familyName_eq (family : GlobFamily) (name : List Char) :
    familyName family name = family.beforeStar ++ ownPart family name ++ family.afterStar := by
  rw [familyName, ownPart]
  split
  next already =>
    simp only [alreadyNamed, Bool.and_eq_true, decide_eq_true_eq, List.isPrefixOf_iff_prefix, List.isSuffixOf_iff_suffix] at already
    obtain ⟨⟨long, rest, rfl⟩, isSuffix⟩ := already
    rw [byteLen_append] at long
    -- the suffix does not reach into the prefix, it would be longer than the rest
    have fits : family.afterStar.length ≤ rest.length := by
      by_contra longer
      obtain ⟨more, same⟩ := List.suffix_of_suffix_length_le (List.suffix_append family.beforeStar rest) isSuffix
        (Nat.le_of_not_le longer)
      have some_ : more ≠ [] := by
        rintro rfl
        exact longer (by rw [← same]; exact Nat.le_refl _)
      have := byteLen_pos some_
      rw [← same, byteLen_append] at long
      omega
    obtain ⟨own, rfl⟩ := List.suffix_of_suffix_length_le isSuffix (List.suffix_append family.beforeStar rest) fits
    rw [List.drop_left, List.rdrop_append_length, List.append_assoc]
  next => rfl

theorem validateFileName_eq_ok {name : List Char} (valid : validateFileName name = .ok ()) :
    ProperSegment name ∧ name ≠ "..".toList ∧ '\\' ∉ name := by
  simp only [validateFileName, Result.refuse_bind_eq_ok, Result.refuse_eq_ok] at valid
  obtain ⟨some_, reserved, separators, _⟩ := valid
  simp only [Bool.or_eq_false_iff, decide_eq_false_iff_not, List.contains_eq_mem] at reserved separators
  refine ⟨⟨?_, separators.1, fun here => reserved.1 (by rw [here]; decide)⟩, reserved.2, separators.2⟩
  rintro rfl
  cases some_

/-- Every bracket expression of the pattern stands between its first and its last star. -/
def BracketsBetweenStars (pattern : List Char) : Prop := ∀ entry ∈ brackets [] pattern, '*' ∈ entry.1 ∧ '*' ∈ entry.2

/-- The name of the file against the pattern: what is before and after the stars matches itself, so the part in between
decides, and a dot at the front. -/
theorem nameMatches_familyName {inBracket : List Char → Char → Bool} {pattern stars name : List Char} {family : GlobFamily}
    (split : SplitAtStars pattern family.beforeStar stars family.afterStar) (between : BracketsBetweenStars pattern)
    (noEscape : '\\' ∉ familyName family name) (some_ : name ≠ []) :
    nameMatches inBracket pattern (familyName family name) = true ↔
      (family.beforeStar ≠ [] ∨ name.head? ≠ some '.') ∧ tokensMatch inBracket (tokens stars) (ownPart family name) = true := by
  have whole := familyName_eq family name
  rw [whole] at noEscape
  simp only [List.mem_append, not_or] at noEscape
  have final : stars.getLast? ≠ some '\\' := by
    rw [split.last]
    decide
  have read : tokens pattern =
      family.beforeStar.map plainToken ++ (tokens stars ++ family.afterStar.map plainToken) := by
    rw [BracketsBetweenStars, split.parts, List.append_assoc] at between
    obtain ⟨front, same⟩ := tokens_front split.noneBefore noEscape.1.1 List.not_mem_nil fun entry member =>
      (between entry member).1
    rw [same] at between
    rw [split.parts, List.append_assoc, front,
      tokens_append final split.noneAfter noEscape.2 fun entry member => (between entry member).2]
  -- the text before and after the stars takes itself away from both sides
  have matched : tokensMatch inBracket (tokens pattern) (familyName family name) = true ↔
      tokensMatch inBracket (tokens stars) (ownPart family name) = true := by
    rw [read, whole, List.append_assoc, tokensMatch_front (star_notMem_plain _) (tokensMatch_plain inBracket _),
      tokensMatch_back (star_notMem_plain _) (tokensMatch_plain inBracket _)]
  -- a leading dot is matched by a dot of the pattern, never by a star
  have visible : ((familyName family name).head? != some '.' || (tokens pattern).head? == some (.literal '.')) = true ↔
      (family.beforeStar ≠ [] ∨ name.head? ≠ some '.') := by
    cases before : family.beforeStar with
    | nil =>
      obtain ⟨rest, shape⟩ : ∃ rest, stars = '*' :: rest := by
        cases stars with
        | nil => cases split.first
        | cons c rest => exact ⟨rest, by rw [Option.some.inj split.first]⟩
      have sameHead : (familyName family name).head? = name.head? := by
        obtain ⟨c, rest, rfl⟩ := List.exists_cons_of_ne_nil some_
        rw [familyName, before]
        split <;> rfl
      rw [sameHead, read, before, shape, tokens]
      simp
    | cons c rest =>
      rw [read, whole, before]
      by_cases dot : c = '.'
      · subst dot
        simp [plainToken]
      · simp [dot]
  rw [nameMatches, Bool.and_eq_true, matched, visible]

/-! ## Segments -/

theorem lastPiece_append (a b : List Char) : lastPiece (a ++ '/' :: b) = lastPiece b := by
  have noSlash : ∀ c ∈ lastPiece b, isSlash c = false := fun c member => by simpa using List.mem_rtakeWhile_imp member
  have parts : (b.rdropWhile (!isSlash ·)) ++ lastPiece b = b := List.rdropWhile_append_rtakeWhile
  by_cases slash : ∃ c ∈ b, isSlash c = true
  · obtain ⟨c, member, isSlash_⟩ := slash
    have whole : a ++ '/' :: b = (a ++ ['/']) ++ b := by simp
    rw [lastPiece, whole, rtakeWhile_append ⟨c, member, by simp [isSlash_]⟩]
    rfl
  · have all : ∀ c ∈ b, (!isSlash c) = true := fun c member => by simpa using fun here => slash ⟨c, member, here⟩
    have self : lastPiece b = b := List.rtakeWhile_eq_self_iff.mpr all
    have stop : ((('/' :: b).reverse.takeWhile (!isSlash ·))).reverse = b := by
      rw [List.reverse_cons, List.takeWhile_append_of_pos (fun c member => all c (List.mem_reverse.mp member))]
      simp [isSlash]
    rw [self, lastPiece, rtakeWhile_append ⟨'/', List.mem_cons_self, rfl⟩]
    exact stop

theorem pathSegments_append (a b : List Char) : pathSegments (a ++ '/' :: b) = pathSegments a ++ pathSegments b := by
  rw [pathSegments, words_append rfl, List.filter_append]
  rfl

/-- A text that names files ends in a segment. -/
theorem pathSegments_last {text : List Char} (file : endsInDirectory text = false) :
    ∃ more, pathSegments text = more ++ [lastPiece text] := by
  simp only [endsInDirectory, Bool.or_eq_false_iff, List.isEmpty_eq_false_iff, decide_eq_false_iff_not] at file
  have proper : ProperSegment (lastPiece text) :=
    ⟨file.1, fun slash => by simpa [isSlash] using List.mem_rtakeWhile_imp slash, file.2⟩
  have parts : text.rdropWhile (!isSlash ·) ++ lastPiece text = text := List.rdropWhile_append_rtakeWhile
  obtain none_ | ⟨front, c, shape⟩ := List.eq_nil_or_concat (text.rdropWhile (!isSlash ·))
  · rw [none_, List.nil_append] at parts
    exact ⟨[], by rw [parts] at proper ⊢; rw [proper.pathSegments]; rfl⟩
  · rw [List.concat_eq_append] at shape
    have some_ : text.rdropWhile (!isSlash ·) ≠ [] := by simp [shape]
    have last : (text.rdropWhile (!isSlash ·)).getLast? = some c := by rw [shape, List.getLast?_concat]
    rw [List.getLast?_eq_some_getLast some_] at last
    have stop := List.rdropWhile_last_not (!isSlash ·) text some_
    rw [Option.some.inj last] at stop
    obtain rfl : c = '/' := by simpa [isSlash] using stop
    refine ⟨pathSegments front, ?_⟩
    rw [← proper.pathSegments, ← pathSegments_append]
    rw [shape, List.append_assoc, List.singleton_append] at parts
    rw [parts]

/-! ## The directory of the pattern -/

/-- The path the program resolves a token to against the pattern ssh makes of it.  Only after `~//` the program starts at
the root. -/
structure SameReading (text : List Char) (abs : Path) (pattern : IncludePattern) : Prop where
  directories : pattern.directories = endsInDirectory text
  last : endsInDirectory text = false → ∃ more, pattern.segments = more ++ [lastPiece text]
  plain : ¬ "~//".toList <+: text →
    abs.segments = pattern.base.segments ++ pattern.segments ∧ abs.isAbsolute = pattern.base.isAbsolute
  rooted : "~//".toList <+: text → abs.segments = pattern.segments ∧ abs.isAbsolute = true

theorem new_isAbsolute (text : List Char) : (Path.new text).isAbsolute = decide (text.head? = some '/') := by
  rw [Path.isAbsolute, Path.new]
  dsimp only
  split
  next root => simp [root]
  next notRoot => split <;> simp [notRoot]

theorem resolveToken_eq (token : List Char) (mainDir : Path) (home : Option Path) :
    resolveToken token mainDir home = (expandHome token home).map mainDir.join := by
  have same (expanded : Path) : (if expanded.isAbsolute then expanded else mainDir.join expanded) = mainDir.join expanded := by
    split
    next absolute => rw [Path.join_of_absolute absolute]
    next => rfl
  rw [resolveToken]
  simp only [same]

theorem join_join {p h q : Path} (relative : q.isAbsolute = false) :
    (p.join (h.join q)).segments = (p.join h).segments ++ q.segments ∧ (p.join (h.join q)).isAbsolute = (p.join h).isAbsolute := by
  refine ⟨?_, by rw [Path.isAbsolute_join, Path.isAbsolute_join, Path.isAbsolute_join, relative, Bool.or_false]⟩
  cases absolute : h.isAbsolute with
  | true =>
    have here : (h.join q).isAbsolute = true := by rw [Path.isAbsolute_join, absolute, Bool.true_or]
    rw [Path.join_of_absolute here, Path.join_of_absolute absolute, Path.join_of_relative relative]
  | false =>
    have here : (h.join q).isAbsolute = false := by rw [Path.isAbsolute_join, absolute, relative]; rfl
    rw [Path.join_of_relative here, Path.join_of_relative absolute, Path.join_of_relative relative, List.append_assoc]

/-- A token in the home directory. -/
theorem sameReading_home (rest : List Char) (mainDir h : Path) :
    SameReading ('~' :: '/' :: rest) (mainDir.join (h.join (.new rest)))
      { base := mainDir.join h, segments := pathSegments ('/' :: rest), directories := endsInDirectory ('~' :: '/' :: rest) } := by
  have segments : pathSegments ('/' :: rest) = pathSegments rest := by rw [pathSegments, words_separator rfl]; rfl
  refine ⟨rfl, ?_, ?_, ?_⟩
  · intro file
    have same : lastPiece ('~' :: '/' :: rest) = lastPiece ('/' :: rest) := by
      rw [show '~' :: '/' :: rest = ['~'] ++ '/' :: rest from rfl, lastPiece_append, show '/' :: rest = [] ++ '/' :: rest from rfl,
        lastPiece_append]
    rw [endsInDirectory, same] at file
    rw [same]
    exact pathSegments_last file
  · intro single
    have relative : (Path.new rest).isAbsolute = false := by
      rw [new_isAbsolute, decide_eq_false_iff_not]
      intro slash
      obtain ⟨more, rfl⟩ : ∃ more, rest = '/' :: more := by
        cases rest with
        | nil => cases slash
        | cons c more => exact ⟨more, by rw [Option.some.inj slash]⟩
      exact single (List.prefix_append _ more)
    rw [segments]
    exact join_join relative
  · rintro ⟨more, whole⟩
    have slash : rest = '/' :: more := (List.cons.inj (List.cons.inj whole).2).2.symm
    have absolute : (Path.new rest).isAbsolute = true := by rw [new_isAbsolute, slash]; rfl
    have here : (h.join (.new rest)).isAbsolute = true := by rw [Path.isAbsolute_join, absolute, Bool.or_true]
    rw [Path.join_of_absolute here, Path.join_of_absolute absolute, segments]
    exact ⟨rfl, absolute⟩

/-- A token elsewhere. -/
theorem sameReading_other {text : List Char} (mainDir : Path) (other : text.head? ≠ some '~') :
    SameReading text (mainDir.join (.new text))
      { base := if text.head? = some '/' then rootPath else mainDir
        segments := pathSegments text, directories := endsInDirectory text } := by
  refine ⟨rfl, pathSegments_last, fun _ => ?_, ?_⟩
  · by_cases slash : text.head? = some '/'
    · have absolute : (Path.new text).isAbsolute = true := by rw [new_isAbsolute, decide_eq_true slash]
      rw [if_pos slash, Path.join_of_absolute absolute]
      exact ⟨rfl, absolute⟩
    · have relative : (Path.new text).isAbsolute = false := by rw [new_isAbsolute, decide_eq_false slash]
      rw [if_neg slash, Path.join_of_relative relative, Path.isAbsolute_join, relative, Bool.or_false]
      exact ⟨rfl, rfl⟩
  · rintro ⟨more, rfl⟩
    exact absurd rfl other

/-- The program and ssh read a token of the user's own home or of no home alike. -/
theorem resolveToken_reading {expandEnv : List Char → Option (List Char)} (userHome : List Char → Option Path) {mainDir : Path}
    {home : Option Path} {token text : List Char} {abs : Path} (expands : expandEnv token = some text)
    (own : text.head? = some '~' → "~/".toList <+: text) (resolved : resolveToken text mainDir home = some abs) :
    ∃ pattern, includePattern expandEnv userHome mainDir home token = some pattern ∧ SameReading text abs pattern := by
  rw [resolveToken_eq] at resolved
  obtain ⟨expanded, expanded_, rfl⟩ := Option.map_eq_some_iff.mp resolved
  rw [includePattern, expands, Option.bind_some]
  by_cases tilde : text.head? = some '~'
  · obtain ⟨rest, rfl⟩ := own tilde
    have cut : ("~/".toList ++ rest).dropPrefix? "~/".toList = some rest := List.dropPrefix?_append_of_beq rest (by simp)
    rw [expandHome, cut] at expanded_
    obtain ⟨h, rfl, rfl⟩ := Option.map_eq_some_iff.mp expanded_
    exact ⟨_, rfl, sameReading_home rest mainDir h⟩
  · have cut : text.dropPrefix? "~/".toList = none := by
      cases found : text.dropPrefix? "~/".toList with
      | none => rfl
      | some rest =>
        obtain ⟨front, rfl, same⟩ := List.dropPrefix?_eq_some_iff.mp found
        rw [beq_iff_eq.mp same] at tilde
        exact absurd rfl tilde
    have notHome : text ≠ "~".toList := by
      rintro rfl
      exact tilde rfl
    rw [expandHome, cut] at expanded_
    dsimp only at expanded_
    rw [if_neg notHome] at expanded_
    obtain rfl := Option.some.inj expanded_
    refine ⟨_, ?_, sameReading_other mainDir tilde⟩
    split
    next rest => exact absurd rfl tilde
    next => rfl

/-! ## Plans -/

theorem globFamily_eq_some {text : List Char} {mainDir : Path} {home : Option Path} {family : GlobFamily}
    (found : globFamily text mainDir home = some family) :
    ∃ abs filePart, resolveToken text mainDir home = some abs ∧ abs.fileName = some filePart ∧
      (∀ s ∈ abs.parent.segments, s.any isGlobChar = false) ∧ '*' ∈ filePart ∧ family.dir = abs.parent ∧
      family.beforeStar = filePart.takeWhile notStar ∧ family.afterStar = filePart.rtakeWhile notStar := by
  unfold globFamily at found
  obtain ⟨abs, resolved, found⟩ := Option.bind_eq_some_iff.mp found
  obtain ⟨filePart, named, found⟩ := Option.bind_eq_some_iff.mp found
  dsimp only at found
  split at found
  next => cases found
  next plain =>
    split at found
    next => cases found
    next star =>
      obtain rfl := Option.some.inj found
      exact ⟨abs, filePart, resolved, named, by simpa using plain, by simpa using star, rfl, rfl, rfl⟩

/-- A plan without a new `Include` line comes from the family of one token. -/
theorem planNewFile_covered {setting : Setting} {mainDir : Path} {home : Option Path} {name : List Char}
    {includePatterns : List (List Char)} {plan : NewFilePlan} {token : List Char}
    (planned : planNewFile setting mainDir home name includePatterns = .ok plan) (covered : plan.coveredBy = some token) :
    ∃ text family, familyToken setting mainDir home token = .ok text ∧ globFamily text mainDir home = some family ∧
      validateFileName name = .ok () ∧ validateFileName (familyName family name) = .ok () ∧
      plan.path = family.dir.join (.new (familyName family name)) := by
  unfold planNewFile at planned
  obtain ⟨valid, planned⟩ := Result.check_eq_ok.mp planned
  obtain ⟨_, planned⟩ := Result.check_eq_ok.mp planned
  obtain ⟨families, collected, planned⟩ := Result.bind_eq_ok.mp planned
  split at planned
  next token' family picked =>
    obtain ⟨finalValid, planned⟩ := Result.check_eq_ok.mp planned
    obtain ⟨_, planned⟩ := Result.check_eq_ok.mp planned
    obtain rfl := Except.ok.inj planned
    obtain rfl := Option.some.inj covered
    have member : (token', family) ∈ families.reduceOption := by
      rw [pickFamily] at picked
      obtain found | ⟨_, first⟩ := Option.or_eq_some_iff.mp picked
      · exact List.mem_of_find?_eq_some found
      · exact List.mem_of_head? first
    obtain ⟨other, _, ran⟩ := (Result.mem_mapM collected).mp (List.reduceOption_mem_iff.mp member)
    rw [tokenFamily] at ran
    obtain ⟨text, read, ran⟩ := Result.bind_eq_ok.mp ran
    obtain ⟨family', found, same⟩ := Option.map_eq_some_iff.mp (Except.ok.inj ran)
    cases same
    exact ⟨text, family, read, found, valid, finalValid, rfl⟩
  next =>
    obtain ⟨_, planned⟩ := Result.check_eq_ok.mp planned
    obtain rfl := Except.ok.inj planned
    cases covered

theorem familyToken_eq_ok {setting : Setting} {mainDir : Path} {home : Option Path} {token text : List Char}
    (read : familyToken setting mainDir home token = .ok text) :
    if setting.writesAreConfined then setting.expandEnv token = some text else text = token := by
  unfold familyToken at read
  cases confined : setting.writesAreConfined with
  | false =>
    rw [confined] at read
    exact (Except.ok.inj read).symm
  | true =>
    rw [confined, if_pos rfl] at read
    obtain ⟨expanded, ran, read⟩ := Result.bind_eq_ok.mp read
    obtain ⟨_, _, read⟩ := Result.bind_eq_ok.mp read
    obtain ⟨_, read⟩ := Result.check_eq_ok.mp read
    obtain rfl := Except.ok.inj read
    rw [expandToken] at ran
    split at ran
    next text' found =>
      obtain rfl := Except.ok.inj ran
      exact found
    next => cases ran

/-- A token whose text says the same to the program and to ssh: no variable that only ssh expands, no other user's home, and
no bracket expression that begins before the first star or ends after the last one. -/
structure PlainToken (setting : Setting) (token text : List Char) : Prop where
  unexpanded : setting.writesAreConfined = false → text = token
  ownHome : text.head? = some '~' → "~/".toList <+: text
  brackets : BracketsBetweenStars (lastPiece text)

/-- What the plan leaves unchecked about the pattern and the name. -/
structure CoversName (inBracket : List Char → Char → Bool) (pattern : IncludePattern) (text : List Char)
    (family : GlobFamily) (name : List Char) : Prop where
  files : pattern.directories = false
  root : "~//".toList <+: text → pattern.base.isAbsolute = true ∧ pattern.base.segments = []
  directory : ∀ s ∈ pattern.segments.dropLast, '\\' ∉ s
  visible : family.beforeStar ≠ [] ∨ name.head? ≠ some '.'
  between : tokensMatch inBracket (tokens (starsPart (lastPiece text))) (ownPart family name) = true

theorem forall₂_self {R : List Char → List Char → Prop} (more : List (List Char)) (a b : List Char) :
    List.Forall₂ R (more ++ [a]) (more ++ [b]) ↔ (∀ s ∈ more, R s s) ∧ R a b := by
  induction more with
  | nil => simp
  | cons first rest ih =>
    rw [List.cons_append, List.cons_append, List.forall₂_cons, ih, List.forall_mem_cons, and_assoc]

theorem notMem_of_plain {s : List Char} (plain : s.any isGlobChar = false) : '*' ∉ s ∧ '?' ∉ s ∧ '[' ∉ s := by
  rw [List.any_eq_false] at plain
  exact ⟨fun here => plain _ here rfl, fun here => plain _ here rfl, fun here => plain _ here rfl⟩

/-- When a file planned without a new `Include` line is read by the pattern that covers it. -/
theorem covered_files_are_read {setting : Setting} {mainDir : Path} {home : Option Path} {name : List Char}
    {includePatterns : List (List Char)} {plan : NewFilePlan} {token text : List Char} {family : GlobFamily}
    (inBracket : List Char → Char → Bool) (userHome : List Char → Option Path)
    (planned : planNewFile setting mainDir home name includePatterns = .ok plan) (covered : plan.coveredBy = some token)
    (expands : setting.expandEnv token = some text) (found : globFamily text mainDir home = some family)
    (plain : PlainToken setting token text) :
    ∃ pattern, includePattern setting.expandEnv userHome mainDir home token = some pattern ∧
      (pattern.Reads inBracket plan.path ↔ CoversName inBracket pattern text family name) := by
  obtain ⟨text', family', read, found', valid, finalValid, path⟩ := planNewFile_covered planned covered
  obtain rfl : text' = text := by
    have same := familyToken_eq_ok read
    cases confined : setting.writesAreConfined with
    | true =>
      rw [confined, if_pos rfl, expands] at same
      exact (Option.some.inj same).symm
    | false =>
      rw [confined, if_neg Bool.false_ne_true] at same
      exact same.trans (plain.unexpanded confined).symm
  obtain rfl : family' = family := Option.some.inj (found'.symm.trans found)
  obtain ⟨abs, filePart, resolved, named, dirPlain, star, dir, before, after⟩ := globFamily_eq_some found
  obtain ⟨pattern, reads, reading⟩ := resolveToken_reading userHome expands plain.ownHome resolved
  refine ⟨pattern, reads, ?_⟩
  cases file : pattern.directories with
  | true =>
    constructor
    · rintro ⟨files, _⟩
      rw [file] at files
      cases files
    · rintro ⟨files, _⟩
      rw [file] at files
      cases files
  | false =>
    have files : endsInDirectory text' = false := reading.directories.symm.trans file
    obtain ⟨more, segments⟩ := reading.last files
    obtain ⟨proper, notUp, noEscape⟩ := validateFileName_eq_ok finalValid
    obtain ⟨nameProper, _⟩ := validateFileName_eq_ok valid
    -- the path ends in the name, and its directory is that of the pattern
    have relative : (Path.new (familyName family' name)).isAbsolute = false := by
      rw [new_isAbsolute, decide_eq_false_iff_not]
      exact fun slash => proper.noSlash (List.mem_of_head? slash)
    have pathSegments_ : plan.path.segments = abs.segments.dropLast ++ [familyName family' name] := by
      rw [path, Path.join_of_relative relative, dir]
      exact congrArg (abs.segments.dropLast ++ ·) proper.pathSegments
    have pathAbsolute : plan.path.isAbsolute = abs.isAbsolute := by
      rw [path, Path.isAbsolute_join, relative, Bool.or_false, dir]
      rfl
    have lastSegment (front : List (List Char)) (whole : abs.segments = front ++ (more ++ [lastPiece text'])) :
        filePart = lastPiece text' ∧ abs.segments.dropLast = front ++ more := by
      rw [← List.append_assoc] at whole
      rw [Path.fileName, whole, List.getLast?_concat] at named
      rw [whole, List.dropLast_concat]
      exact ⟨(Option.some.inj (Option.filter_eq_some_iff.mp named).1).symm, rfl⟩
    have plainSelf : ∀ s ∈ abs.segments.dropLast, nameMatches inBracket s s = true ↔ '\\' ∉ s := by
      intro s member
      obtain ⟨noStar, noAny, noOpen⟩ := notMem_of_plain (dirPlain s member)
      exact nameMatches_self noStar noAny noOpen
    have split := splitAtStars star
    rw [← before, ← after] at split
    have nameMatch (same : filePart = lastPiece text') :=
      @nameMatches_familyName inBracket _ _ name family' split (same ▸ plain.brackets) noEscape nameProper.some_
    have cut : pattern.segments.dropLast = more := by rw [segments, List.dropLast_concat]
    by_cases rooted : "~//".toList <+: text'
    · obtain ⟨whole, absolute⟩ := reading.rooted rooted
      obtain ⟨rfl, dirSegments⟩ := lastSegment [] (whole.trans segments)
      rw [dirSegments, List.nil_append] at plainSelf pathSegments_
      constructor
      · rintro ⟨_, sameStart, _, each⟩
        have count := each.length_eq
        rw [segments, pathSegments_, List.length_drop, List.length_append, List.length_append] at count
        have none_ : pattern.base.segments = [] := by
          simp only [List.length_singleton] at count
          exact List.eq_nil_of_length_eq_zero (by omega)
        rw [none_, List.length_nil, List.drop_zero, segments, pathSegments_, forall₂_self, nameMatch rfl] at each
        refine ⟨file, fun _ => ⟨?_, none_⟩, ?_, each.2.1, each.2.2⟩
        · rw [← sameStart, pathAbsolute, absolute]
        · rw [cut]
          exact fun s member => (plainSelf s member).mp (each.1 s member)
      · rintro ⟨_, root, directory, visible, between⟩
        obtain ⟨baseAbsolute, none_⟩ := root rooted
        refine ⟨file, by rw [pathAbsolute, absolute, baseAbsolute], by rw [none_]; exact List.nil_prefix, ?_⟩
        rw [none_, List.length_nil, List.drop_zero, segments, pathSegments_, forall₂_self, nameMatch rfl]
        rw [cut] at directory
        exact ⟨fun s member => (plainSelf s member).mpr (directory s member), visible, between⟩
    · obtain ⟨whole, sameStart⟩ := reading.plain rooted
      obtain ⟨rfl, dirSegments⟩ := lastSegment pattern.base.segments (whole.trans (congrArg _ segments))
      rw [dirSegments] at plainSelf pathSegments_
      have plainSelf : ∀ s ∈ more, nameMatches inBracket s s = true ↔ '\\' ∉ s :=
        fun s member => plainSelf s (List.mem_append_right _ member)
      rw [List.append_assoc] at pathSegments_
      have each : List.Forall₂ (fun pattern name => nameMatches inBracket pattern name = true) pattern.segments
          (plan.path.segments.drop pattern.base.segments.length) ↔ (∀ s ∈ more, nameMatches inBracket s s = true) ∧
          (family'.beforeStar ≠ [] ∨ name.head? ≠ some '.') ∧
          tokensMatch inBracket (tokens (starsPart (lastPiece text'))) (ownPart family' name) = true := by
        rw [segments, pathSegments_, List.drop_left, forall₂_self, nameMatch rfl]
      constructor
      · rintro ⟨_, _, _, matched⟩
        obtain ⟨directory, visible, between⟩ := each.mp matched
        refine ⟨file, fun here => absurd here rooted, ?_, visible, between⟩
        rw [cut]
        exact fun s member => (plainSelf s member).mp (directory s member)
      · rintro ⟨_, _, directory, visible, between⟩
        rw [cut] at directory
        refine ⟨file, by rw [pathAbsolute, sameStart], by rw [pathSegments_]; exact List.prefix_append _ _, ?_⟩
        exact each.mpr ⟨fun s member => (plainSelf s member).mpr (directory s member), visible, between⟩

namespace Sample

/-- A production build on a computer without variables in its paths. -/
def production : Setting where
  writesAreConfined := false
  checkWrite := fun _ => .ok ()
  expandEnv := some

def sshDir : Path := .new "/home/u/.ssh".toList

/-- Only single characters in brackets. -/
def listed (body : List Char) (c : Char) : Bool := body.contains c

def confDir : Path := .new "/home/u/.ssh/conf.d".toList

def confFamily : GlobFamily where
  dir := confDir
  beforeStar := []
  afterStar := ".conf".toList

/-- A plan for a name below a pattern. -/
def planFor (name token : List Char) : NewFilePlan where
  path := confDir.join (.new name)
  coveredBy := some token
  includeValue := none
  finalName := name
  alreadyExists := false

def patternOf (name : List Char) : IncludePattern where
  base := sshDir
  segments := ["conf.d".toList, name]
  directories := false

end Sample

open Sample in
/-- The plan for a name below `conf.d/*.conf`, whose file is read. -/
theorem sample_file_is_read :
    planNewFile production sshDir none "work".toList ["conf.d/*.conf".toList] =
        .ok (planFor "work.conf".toList "conf.d/*.conf".toList) ∧
      includePattern production.expandEnv (fun _ => none) sshDir none "conf.d/*.conf".toList =
        some (patternOf "*.conf".toList) ∧
      CoversName listed (patternOf "*.conf".toList) "conf.d/*.conf".toList confFamily "work".toList ∧
      (patternOf "*.conf".toList).Reads listed (planFor "work.conf".toList "conf.d/*.conf".toList).path := by
  have planned : planNewFile production sshDir none "work".toList ["conf.d/*.conf".toList] =
      .ok (planFor "work.conf".toList "conf.d/*.conf".toList) := by decide +kernel
  have found : globFamily "conf.d/*.conf".toList sshDir none = some confFamily := by decide +kernel
  have reads : includePattern production.expandEnv (fun _ => none) sshDir none "conf.d/*.conf".toList =
      some (patternOf "*.conf".toList) := by decide +kernel
  have noBrackets : BracketsBetweenStars (lastPiece "conf.d/*.conf".toList) := by
    rw [show lastPiece "conf.d/*.conf".toList = "*.conf".toList by decide +kernel, BracketsBetweenStars]
    simp [brackets]
  have plain : PlainToken production "conf.d/*.conf".toList "conf.d/*.conf".toList :=
    ⟨fun _ => rfl, by decide, noBrackets⟩
  have covers : CoversName listed (patternOf "*.conf".toList) "conf.d/*.conf".toList confFamily "work".toList := by
    refine ⟨rfl, fun rooted => absurd rooted (by decide), by decide, .inr (by decide), ?_⟩
    have stars : starsPart (lastPiece "conf.d/*.conf".toList) = ['*'] := by decide +kernel
    rw [stars, tokens, tokens, tokensMatch_star]
    exact ⟨_, [], (List.append_nil _).symm, rfl⟩
  obtain ⟨pattern, same, iff⟩ := covered_files_are_read listed (fun _ => none) planned rfl rfl found plain
  obtain rfl := Option.some.inj (reads.symm.trans same)
  exact ⟨planned, reads, covers, iff.mpr covers⟩

open Sample in
/-- A name with a leading dot is said to be covered, but `*` does not match it. -/
theorem hidden_file_is_not_read :
    planNewFile production sshDir none ".work".toList ["conf.d/*".toList] = .ok (planFor ".work".toList "conf.d/*".toList) ∧
      includePattern production.expandEnv (fun _ => none) sshDir none "conf.d/*".toList = some (patternOf ['*']) ∧
      ¬ (patternOf ['*']).Reads listed (planFor ".work".toList "conf.d/*".toList).path := by
  refine ⟨by decide +kernel, by decide +kernel, ?_⟩
  rintro ⟨_, _, _, each⟩
  have names : (planFor ".work".toList "conf.d/*".toList).path.segments.drop (patternOf ['*']).base.segments.length =
      ["conf.d".toList, ".work".toList] := by decide +kernel
  rw [names] at each
  obtain ⟨_, last⟩ := List.forall₂_cons.mp each
  obtain ⟨matched, _⟩ := List.forall₂_cons.mp last
  rw [nameMatches, tokens] at matched
  simp at matched

end Sshelter.Config.NewFile
