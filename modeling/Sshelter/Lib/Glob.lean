import Mathlib

/-! # Glob patterns

Patterns of one file name: `*`, `?`, bracket expressions and backslash escapes.  The text of
a pattern is read into tokens first.  Which characters a bracket takes (ranges, negation, named
classes) is a function of the text between the brackets and enters as a parameter.
-/

namespace Sshelter.Glob

inductive Token where
  | star
  | anyChar
  | literal (c : Char)
  | oneOf (body : List Char)
  /-- Takes no character. -/
  | nothing
deriving DecidableEq, Repr

/-! ## Brackets -/

inductive BracketMode where
  /-- At the first member, which may be a closing bracket. -/
  | first
  | inside
  | escaped
  /-- After a `[`, which opens a named class if a colon follows. -/
  | opened
  | named
  /-- After a colon of a named class. -/
  | colon

/-- The mode after a member. -/
def member (c : Char) : BracketMode :=
  if c = '\\' then .escaped else if c = '[' then .opened else .inside

/-- The mode after a character, or none when it closes the bracket. -/
def bracketStep (c : Char) : BracketMode → Option BracketMode
  | .first => some (member c)
  | .inside => if c = ']' then none else some (member c)
  | .escaped => some .inside
  | .opened => if c = ':' then some .named else if c = ']' then none else some (member c)
  | .named => some (if c = ':' then .colon else .named)
  | .colon => some (if c = ']' then .inside else if c = ':' then .colon else .named)

/-- The text up to the closing bracket and the text after it. -/
def bracketEnd (mode : BracketMode) : List Char → Option (List Char × List Char)
  | [] => none
  | c :: rest =>
    match bracketStep c mode with
    | none => some ([], rest)
    | some next => (bracketEnd next rest).map fun (body, after) => (c :: body, after)

/-- The bracket after its `[`, with the sign that negates it. -/
def bracket : List Char → Option (List Char × List Char)
  | [] => none
  | c :: rest =>
    if c = '!' ∨ c = '^' then (bracketEnd .first rest).map fun (body, after) => (c :: body, after)
    else bracketEnd .first (c :: rest)

/-- What follows a bracket is the end of the text. -/
theorem bracketEnd_suffix {mode : BracketMode} {s body after : List Char}
    (found : bracketEnd mode s = some (body, after)) : ∃ c front, s = c :: front ++ after := by
  induction s generalizing mode body with
  | nil => cases found
  | cons c rest ih =>
    rw [bracketEnd] at found
    cases step : bracketStep c mode with
    | none =>
      rw [step] at found
      obtain ⟨_, rfl⟩ := Prod.mk.inj (Option.some.inj found)
      exact ⟨c, [], rfl⟩
    | some next =>
      rw [step] at found
      obtain ⟨⟨inner, after'⟩, later, same⟩ := Option.map_eq_some_iff.mp found
      obtain ⟨_, rfl⟩ := Prod.mk.inj same
      obtain ⟨d, front, rfl⟩ := ih later
      exact ⟨c, d :: front, rfl⟩

theorem bracket_suffix {s body after : List Char} (found : bracket s = some (body, after)) :
    ∃ c front, s = c :: front ++ after := by
  cases s with
  | nil => cases found
  | cons c rest =>
    rw [bracket] at found
    split at found
    · obtain ⟨⟨inner, after'⟩, later, same⟩ := Option.map_eq_some_iff.mp found
      obtain ⟨_, rfl⟩ := Prod.mk.inj same
      obtain ⟨d, front, rfl⟩ := bracketEnd_suffix later
      exact ⟨c, d :: front, rfl⟩
    · exact bracketEnd_suffix found

theorem bracket_length {s body after : List Char} (found : bracket s = some (body, after)) :
    after.length < s.length := by
  obtain ⟨c, front, rfl⟩ := bracket_suffix found
  simp only [List.length_append, List.length_cons]
  omega

/-- A bracket that ends in the text ends there whatever follows. -/
theorem bracketEnd_append {mode : BracketMode} {u body after : List Char} (found : bracketEnd mode u = some (body, after))
    (s : List Char) : bracketEnd mode (u ++ s) = some (body, after ++ s) := by
  induction u generalizing mode body with
  | nil => cases found
  | cons c rest ih =>
    rw [List.cons_append, bracketEnd]
    rw [bracketEnd] at found
    cases step : bracketStep c mode with
    | none =>
      rw [step] at found
      obtain ⟨rfl, rfl⟩ := Prod.mk.inj (Option.some.inj found)
      rfl
    | some next =>
      rw [step] at found
      obtain ⟨⟨inner, after'⟩, later, same⟩ := Option.map_eq_some_iff.mp found
      obtain ⟨rfl, rfl⟩ := Prod.mk.inj same
      simp only [ih later, Option.map_some]

/-- One that does not end in the text ends in what follows, if anywhere. -/
theorem bracketEnd_later {mode : BracketMode} {u s body after : List Char} (unclosed : bracketEnd mode u = none)
    (found : bracketEnd mode (u ++ s) = some (body, after)) : after <:+ s := by
  induction u generalizing mode body with
  | nil =>
    obtain ⟨c, front, shape⟩ := bracketEnd_suffix found
    rw [List.nil_append] at shape
    exact ⟨c :: front, shape.symm⟩
  | cons c rest ih =>
    rw [List.cons_append, bracketEnd] at found
    rw [bracketEnd] at unclosed
    cases step : bracketStep c mode with
    | none =>
      rw [step] at unclosed
      cases unclosed
    | some next =>
      rw [step] at found unclosed
      obtain ⟨⟨inner, after'⟩, later, same⟩ := Option.map_eq_some_iff.mp found
      obtain ⟨_, rfl⟩ := Prod.mk.inj same
      exact ih (Option.map_eq_none_iff.mp unclosed) later

theorem bracket_append {u body after : List Char} (found : bracket u = some (body, after)) (s : List Char) :
    bracket (u ++ s) = some (body, after ++ s) := by
  cases u with
  | nil => cases found
  | cons c rest =>
    rw [List.cons_append, bracket]
    rw [bracket] at found
    split at found
    next sign =>
      obtain ⟨⟨inner, after'⟩, later, same⟩ := Option.map_eq_some_iff.mp found
      obtain ⟨rfl, rfl⟩ := Prod.mk.inj same
      rw [if_pos sign, bracketEnd_append later]
      rfl
    next plain =>
      rw [if_neg plain, ← List.cons_append]
      exact bracketEnd_append found s

theorem bracket_later {u s body after : List Char} (unclosed : bracket u = none)
    (found : bracket (u ++ s) = some (body, after)) : after <:+ s := by
  cases u with
  | nil =>
    obtain ⟨c, front, shape⟩ := bracket_suffix found
    rw [List.nil_append] at shape
    exact ⟨c :: front, shape.symm⟩
  | cons c rest =>
    rw [List.cons_append, bracket] at found
    rw [bracket] at unclosed
    split at found
    next sign =>
      rw [if_pos sign] at unclosed
      obtain ⟨⟨inner, after'⟩, later, same⟩ := Option.map_eq_some_iff.mp found
      obtain ⟨_, rfl⟩ := Prod.mk.inj same
      exact bracketEnd_later (Option.map_eq_none_iff.mp unclosed) later
    next plain =>
      rw [if_neg plain] at unclosed
      rw [← List.cons_append] at found
      exact bracketEnd_later unclosed found

/-! ## Patterns -/

/-- The tokens of a pattern.  A bracket that is not closed stands for itself. -/
def tokens : List Char → List Token
  | [] => []
  | '*' :: rest => .star :: tokens rest
  | '?' :: rest => .anyChar :: tokens rest
  | ['\\'] => [.nothing]
  | '\\' :: c :: rest => .literal c :: tokens rest
  | '[' :: rest =>
    match found : bracket rest with
    | some (body, after) =>
      have := bracket_length found
      .oneOf body :: tokens after
    | none => .literal '[' :: tokens rest
  | c :: rest => .literal c :: tokens rest
termination_by s => s.length
decreasing_by all_goals (simp only [List.length_cons]; omega)

/-- The bracket expressions of a pattern behind what was read of it: the text in front of each and the text behind it. -/
def brackets (front : List Char) : List Char → List (List Char × List Char)
  | [] => []
  | ['\\'] => []
  | '\\' :: c :: rest => brackets (front ++ ['\\', c]) rest
  | '[' :: rest =>
    match found : bracket rest with
    | some (body, after) =>
      have := bracket_length found
      (front, after) :: brackets (front ++ '[' :: body ++ [']']) after
    | none => brackets (front ++ ['[']) rest
  | c :: rest => brackets (front ++ [c]) rest
termination_by s => s.length
decreasing_by all_goals (simp only [List.length_cons]; omega)

section Matching

-- which characters the bracket with this text takes
variable (inBracket : List Char → Char → Bool)

def Token.takes : Token → Char → Bool
  | .star, _ => false
  | .anyChar, _ => true
  | .literal d, c => d = c
  | .oneOf body, c => inBracket body c
  | .nothing, _ => false

def tokensMatch : List Token → List Char → Bool
  | [], s => s.isEmpty
  | .star :: ts, s => s.tails.any (tokensMatch ts)
  | t :: ts, s =>
    match s with
    | [] => false
    | c :: rest => t.takes inBracket c && tokensMatch ts rest

/-- A file name against a pattern; a leading dot is only matched by one in the pattern. -/
def nameMatches (pattern name : List Char) : Bool :=
  (name.head? != some '.' || (tokens pattern).head? == some (.literal '.')) &&
    tokensMatch inBracket (tokens pattern) name

attribute [local simp] tokens tokensMatch

variable {inBracket} {ts us : List Token}

theorem tokensMatch_star {s : List Char} :
    tokensMatch inBracket (.star :: ts) s = true ↔ ∃ a b, s = a ++ b ∧ tokensMatch inBracket ts b = true := by
  simp only [tokensMatch, List.any_eq_true, List.mem_tails]
  constructor
  · rintro ⟨b, ⟨a, rfl⟩, matched⟩
    exact ⟨a, b, rfl, matched⟩
  · rintro ⟨a, b, rfl, matched⟩
    exact ⟨b, ⟨a, rfl⟩, matched⟩

theorem tokensMatch_single {t : Token} (single : t ≠ .star) {s : List Char} :
    tokensMatch inBracket (t :: ts) s = true ↔
      ∃ c rest, s = c :: rest ∧ t.takes inBracket c = true ∧ tokensMatch inBracket ts rest = true := by
  cases s with
  | nil => simp [tokensMatch]
  | cons c rest => simp [tokensMatch]

theorem tokensMatch_append {s : List Char} :
    tokensMatch inBracket (ts ++ us) s = true ↔
      ∃ a b, s = a ++ b ∧ tokensMatch inBracket ts a = true ∧ tokensMatch inBracket us b = true := by
  induction ts generalizing s with
  | nil => simp [tokensMatch]
  | cons t rest ih =>
    rw [List.cons_append]
    by_cases isStar : t = .star
    · subst isStar
      simp only [tokensMatch_star, ih]
      constructor
      · rintro ⟨a, _, rfl, b, d, rfl, first, second⟩
        exact ⟨a ++ b, d, (List.append_assoc ..).symm, ⟨a, b, rfl, first⟩, second⟩
      · rintro ⟨_, d, rfl, ⟨a, b, rfl, first⟩, second⟩
        exact ⟨a, b ++ d, List.append_assoc .., b, d, rfl, first, second⟩
    · simp only [tokensMatch_single isStar, ih]
      constructor
      · rintro ⟨c, _, rfl, taken, a, b, rfl, first, second⟩
        exact ⟨c :: a, b, rfl, ⟨c, a, rfl, taken, first⟩, second⟩
      · rintro ⟨_, b, rfl, ⟨c, a, rfl, taken, first⟩, second⟩
        exact ⟨c, a ++ b, rfl, taken, a, b, rfl, first, second⟩

/-- Without a star every token takes one character. -/
theorem length_of_tokensMatch (single : Token.star ∉ ts) {s : List Char} (matched : tokensMatch inBracket ts s = true) :
    s.length = ts.length := by
  induction ts generalizing s with
  | nil =>
    rw [tokensMatch, List.isEmpty_iff] at matched
    rw [matched]
    rfl
  | cons t rest ih =>
    obtain ⟨here, later⟩ := List.ne_and_not_mem_of_not_mem_cons single
    obtain ⟨c, s, rfl, _, matched⟩ := (tokensMatch_single (Ne.symm here)).mp matched
    rw [List.length_cons, List.length_cons, ih later matched]

/-- Tokens of one character each match a fixed front of the text. -/
theorem tokensMatch_front (single : Token.star ∉ ts) {a b : List Char} (front : tokensMatch inBracket ts a = true) :
    tokensMatch inBracket (ts ++ us) (a ++ b) = true ↔ tokensMatch inBracket us b = true := by
  rw [tokensMatch_append]
  constructor
  · rintro ⟨a', b', parts, front', matched⟩
    have lengths := (length_of_tokensMatch single front).trans (length_of_tokensMatch single front').symm
    obtain ⟨rfl, rfl⟩ := List.append_inj parts lengths
    exact matched
  · exact fun matched => ⟨a, b, rfl, front, matched⟩

/-- The same for the end of the text. -/
theorem tokensMatch_back (single : Token.star ∉ us) {a b : List Char} (back : tokensMatch inBracket us b = true) :
    tokensMatch inBracket (ts ++ us) (a ++ b) = true ↔ tokensMatch inBracket ts a = true := by
  rw [tokensMatch_append]
  constructor
  · rintro ⟨a', b', parts, matched, back'⟩
    have lengths := (length_of_tokensMatch single back).trans (length_of_tokensMatch single back').symm
    obtain ⟨rfl, rfl⟩ := List.append_inj' parts lengths
    exact matched
  · exact fun matched => ⟨a, b, rfl, matched, back⟩

end Matching

/-! ## Plain text -/

/-- The token of a character that is neither a star nor opens anything. -/
def plainToken (c : Char) : Token := if c = '?' then .anyChar else .literal c

theorem plainToken_ne_star (c : Char) : plainToken c ≠ .star := by
  unfold plainToken
  split <;> exact Token.noConfusion

theorem star_notMem_plain (s : List Char) : Token.star ∉ s.map plainToken := by
  simp [plainToken_ne_star]

theorem plainToken_takes (inBracket : List Char → Char → Bool) (c : Char) : (plainToken c).takes inBracket c = true := by
  unfold plainToken
  split <;> simp [Token.takes]

/-- Plain text matches itself. -/
theorem tokensMatch_plain (inBracket : List Char → Char → Bool) (s : List Char) :
    tokensMatch inBracket (s.map plainToken) s = true := by
  induction s with
  | nil => rfl
  | cons c rest ih => exact (tokensMatch_single (plainToken_ne_star c)).mpr ⟨c, rest, rfl, plainToken_takes inBracket c, ih⟩

theorem tokens_cons {c : Char} {rest : List Char} (noStar : c ≠ '*') (noEscape : c ≠ '\\')
    (unclosed : c = '[' → bracket rest = none) : tokens (c :: rest) = plainToken c :: tokens rest := by
  by_cases isOpen : c = '['
  · subst isOpen
    rw [tokens]
    split
    · next found =>
      rw [unclosed rfl] at found
      cases found
    · rfl
  · by_cases isAny : c = '?'
    · subst isAny
      rw [tokens]
      rfl
    · simp [tokens, plainToken, isAny, noEscape]

theorem tokens_open {rest body after : List Char} (found : bracket rest = some (body, after)) :
    tokens ('[' :: rest) = .oneOf body :: tokens after := by
  rw [tokens]
  split
  · next found' =>
    rw [found] at found'
    cases found'
    rfl
  · next found' =>
    rw [found] at found'
    cases found'

theorem brackets_cons {front : List Char} {c : Char} {rest : List Char} (noEscape : c ≠ '\\')
    (unclosed : c = '[' → bracket rest = none) : brackets front (c :: rest) = brackets (front ++ [c]) rest := by
  by_cases isOpen : c = '['
  · subst isOpen
    rw [brackets]
    split
    · next found =>
      rw [unclosed rfl] at found
      cases found
    · rfl
  · rw [brackets]
    · exact fun same _ => absurd same noEscape
    · exact fun _ _ same _ => absurd same noEscape
    · exact fun same => absurd same isOpen

theorem brackets_open {front rest body after : List Char} (found : bracket rest = some (body, after)) :
    brackets front ('[' :: rest) = (front, after) :: brackets (front ++ '[' :: body ++ [']']) after := by
  rw [brackets]
  split
  · next found' =>
    rw [found] at found'
    cases found'
    rfl
  · next found' =>
    rw [found] at found'
    cases found'

/-- Text in front that has no star and escapes nothing, when every bracket begins behind a star. -/
theorem tokens_front {front p rest : List Char} (noStar : '*' ∉ p) (noEscape : '\\' ∉ p) (unread : '*' ∉ front)
    (behind : ∀ entry ∈ brackets front (p ++ rest), '*' ∈ entry.1) :
    tokens (p ++ rest) = p.map plainToken ++ tokens rest ∧
      brackets front (p ++ rest) = brackets (front ++ p) rest := by
  induction p generalizing front with
  | nil => exact ⟨rfl, by rw [List.append_nil, List.nil_append]⟩
  | cons c more ih =>
    simp only [List.mem_cons, not_or] at noStar noEscape
    have unclosed : c = '[' → bracket (more ++ rest) = none := by
      rintro rfl
      cases found : bracket (more ++ rest) with
      | none => rfl
      | some entry =>
        rw [List.cons_append, brackets_open found] at behind
        exact absurd (behind _ List.mem_cons_self) unread
    have step : brackets front (c :: more ++ rest) = brackets (front ++ [c]) (more ++ rest) :=
      brackets_cons (Ne.symm noEscape.1) unclosed
    rw [step] at behind ⊢
    obtain ⟨read, same⟩ := ih noStar.2 noEscape.2 (by simp [unread, noStar.1]) behind
    refine ⟨?_, by rw [same, List.append_assoc, List.singleton_append]⟩
    rw [List.cons_append, tokens_cons (Ne.symm noStar.1) (Ne.symm noEscape.1) unclosed, read]
    rfl

/-- Text without a star, an escape or an opening bracket. -/
theorem tokens_plain {s : List Char} (noStar : '*' ∉ s) (noEscape : '\\' ∉ s) (noOpen : '[' ∉ s) :
    tokens s = s.map plainToken := by
  induction s with
  | nil => rw [tokens, List.map_nil]
  | cons c more ih =>
    simp only [List.mem_cons, not_or] at noStar noEscape noOpen
    rw [tokens_cons (Ne.symm noStar.1) (Ne.symm noEscape.1) (fun same => absurd same.symm noOpen.1),
      ih noStar.2 noEscape.2 noOpen.2]
    rfl

/-- Text behind that has no star and escapes nothing, when every bracket ends before a star. -/
theorem tokens_back {front s : List Char} (noStar : '*' ∉ s) (noEscape : '\\' ∉ s)
    (ends : ∀ entry ∈ brackets front s, '*' ∈ entry.2) : tokens s = s.map plainToken := by
  induction s generalizing front with
  | nil => rw [tokens, List.map_nil]
  | cons c more ih =>
    simp only [List.mem_cons, not_or] at noStar noEscape
    have unclosed : c = '[' → bracket more = none := by
      rintro rfl
      cases found : bracket more with
      | none => rfl
      | some entry =>
        rw [brackets_open found] at ends
        obtain ⟨d, front', shape⟩ := bracket_suffix found
        exact absurd (shape ▸ List.mem_append_right _ (ends (front, entry.2) List.mem_cons_self)) noStar.2
    rw [brackets_cons (Ne.symm noEscape.1) unclosed] at ends
    rw [tokens_cons (Ne.symm noStar.1) (Ne.symm noEscape.1) unclosed, ih noStar.2 noEscape.2 ends]
    rfl

theorem getLast?_of_append {front rest : List Char} {c : Char} (ends : (front ++ rest).getLast? ≠ some c) :
    rest.getLast? ≠ some c := by
  intro last
  rw [List.getLast?_append, last] at ends
  exact ends rfl

theorem getLast?_of_cons {d : Char} {rest : List Char} {c : Char} (ends : (d :: rest).getLast? ≠ some c) :
    rest.getLast? ≠ some c := @getLast?_of_append [d] rest c ends

/-- A pattern up to its last star and the text behind it, when every bracket ends before that star. -/
theorem tokens_append {front u s : List Char} (last : u.getLast? ≠ some '\\') (noStar : '*' ∉ s) (noEscape : '\\' ∉ s)
    (ends : ∀ entry ∈ brackets front (u ++ s), '*' ∈ entry.2) : tokens (u ++ s) = tokens u ++ s.map plainToken := by
  -- the induction follows the pattern; no bracket reaches over its end into the text behind
  fun_induction tokens u generalizing front with
  | case1 => exact tokens_back noStar noEscape ends
  | case2 rest ih =>
    rw [List.cons_append, brackets_cons (by decide) (fun same => absurd same (by decide))] at ends
    rw [List.cons_append, tokens, ih (getLast?_of_cons last) ends]
    rfl
  | case3 rest ih =>
    rw [List.cons_append, brackets_cons (by decide) (fun same => absurd same (by decide))] at ends
    rw [List.cons_append, tokens, ih (getLast?_of_cons last) ends]
    rfl
  | case4 => exact absurd rfl last
  | case5 c rest ih =>
    rw [List.cons_append, List.cons_append, brackets] at ends
    rw [List.cons_append, List.cons_append, tokens, ih (getLast?_of_cons (getLast?_of_cons last)) ends]
    rfl
  | case6 rest body after found smaller ih =>
    have opened := bracket_append found s
    rw [List.cons_append, brackets_open opened] at ends
    obtain ⟨d, front', rfl⟩ := bracket_suffix found
    rw [List.cons_append, tokens_open opened, ih (getLast?_of_append (getLast?_of_cons last))
      fun entry member => ends entry (List.mem_cons_of_mem _ member)]
    rfl
  | case7 rest found ih =>
    have unopened : bracket (rest ++ s) = none := by
      cases found' : bracket (rest ++ s) with
      | none => rfl
      | some entry =>
        rw [List.cons_append, brackets_open found'] at ends
        exact absurd ((bracket_later found found').subset (ends (front, entry.2) List.mem_cons_self)) noStar
    rw [List.cons_append, brackets_cons (by decide) fun _ => unopened] at ends
    rw [List.cons_append, tokens_cons (by decide) (by decide) fun _ => unopened, ih (getLast?_of_cons last) ends]
    rfl
  | case8 c rest noStar' noAny noEnd noEscape' noOpen ih =>
    have other : c ≠ '\\' := by
      rintro rfl
      cases rest with
      | nil => exact noEnd rfl rfl
      | cons d more => exact noEscape' d more rfl rfl
    have single : plainToken c = .literal c := if_neg noAny
    rw [List.cons_append, brackets_cons other fun same => absurd same noOpen] at ends
    rw [List.cons_append, tokens_cons (noStar' ·) other fun same => absurd same noOpen, ih (getLast?_of_cons last) ends, single]
    rfl

theorem tokens_length_le (s : List Char) : (tokens s).length ≤ s.length := by
  fun_induction tokens s with
  | case1 => exact Nat.le_refl _
  | case2 rest ih | case3 rest ih | case7 rest found ih | case8 c rest _ _ _ _ _ ih => exact Nat.succ_le_succ ih
  | case4 => exact Nat.le_refl _
  | case5 c rest ih => exact (Nat.succ_le_succ ih).trans (Nat.le_succ _)
  | case6 rest body after found smaller ih =>
    simp only [List.length_cons]
    omega

theorem star_notMem_tokens {s : List Char} (noStar : '*' ∉ s) (noOpen : '[' ∉ s) : Token.star ∉ tokens s := by
  fun_induction tokens s with
  | case1 => exact List.not_mem_nil
  | case2 => exact absurd List.mem_cons_self noStar
  | case3 rest ih | case8 c rest _ _ _ _ _ ih =>
    simp only [List.mem_cons, not_or] at noStar noOpen
    simp [ih noStar.2 noOpen.2]
  | case4 => simp
  | case5 c rest ih =>
    simp only [List.mem_cons, not_or] at noStar noOpen
    simp [ih noStar.2.2 noOpen.2.2]
  | case6 => exact absurd List.mem_cons_self noOpen
  | case7 => exact absurd List.mem_cons_self noOpen

/-- Without star and bracket a pattern with a backslash takes fewer characters than it has. -/
theorem noEscape_of_tokensMatch {inBracket : List Char → Char → Bool} {s t : List Char} (noStar : '*' ∉ s)
    (noOpen : '[' ∉ s) (lengths : t.length = s.length) (matched : tokensMatch inBracket (tokens s) t = true) :
    '\\' ∉ s := by
  induction s generalizing t with
  | nil => exact List.not_mem_nil
  | cons c rest ih =>
    simp only [List.mem_cons, not_or] at noStar noOpen
    by_cases isEscape : c = '\\'
    · subst isEscape
      exfalso
      cases rest with
      | nil =>
        rw [tokens] at matched
        obtain ⟨c, _, _, taken, _⟩ := (tokensMatch_single Token.noConfusion).mp matched
        cases taken
      | cons d more =>
        -- two characters make one token
        simp only [List.mem_cons, not_or] at noStar noOpen
        rw [tokens] at matched
        obtain ⟨c, t, rfl, _, matched⟩ := (tokensMatch_single Token.noConfusion).mp matched
        have taken := length_of_tokensMatch (star_notMem_tokens noStar.2.2 noOpen.2.2) matched
        have few := tokens_length_le more
        simp only [List.length_cons] at lengths
        omega
    · rw [tokens_cons (Ne.symm noStar.1) isEscape fun same => absurd same.symm noOpen.1] at matched
      obtain ⟨d, t, rfl, _, matched⟩ := (tokensMatch_single (plainToken_ne_star c)).mp matched
      have later := ih noStar.2 noOpen.2 (Nat.succ.inj lengths) matched
      simp [later, Ne.symm isEscape]

/-- A name without star, question mark and bracket matches itself when nothing is escaped in it. -/
theorem nameMatches_self {inBracket : List Char → Char → Bool} {s : List Char} (noStar : '*' ∉ s) (noAny : '?' ∉ s)
    (noOpen : '[' ∉ s) : nameMatches inBracket s s = true ↔ '\\' ∉ s := by
  rw [nameMatches, Bool.and_eq_true]
  refine ⟨fun matched => noEscape_of_tokensMatch noStar noOpen rfl matched.2, fun noEscape => ?_⟩
  have read : tokens s = s.map plainToken := tokens_plain noStar noEscape noOpen
  rw [read]
  refine ⟨?_, tokensMatch_plain inBracket s⟩
  cases s with
  | nil => rfl
  | cons c rest =>
    by_cases dot : c = '.'
    · subst dot
      rfl
    · simp [dot]

end Sshelter.Glob
