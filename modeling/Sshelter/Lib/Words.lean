import Sshelter.Lib.Text

/-! # Splitting text into words and lines

Texts are character lists here.  `words` is the splitting of `str::split_whitespace` and
its variants: maximal runs of characters outside a class.  Lowercasing and the letter
classes outside ASCII come from Unicode tables that change with the toolchain, so they
enter as a `UnicodeTables` value; its laws are the facts every version of the tables has.
-/

namespace Sshelter.Text

def isAscii (c : Char) : Bool := c.toNat < 128

/-- `char::is_ascii_whitespace`. -/
def isAsciiWhitespace (c : Char) : Bool :=
  c = ' ' ∨ c = '\t' ∨ c = '\n' ∨ c = '\x0c' ∨ c = '\r'

/-- The maximal runs of characters outside the class. -/
def words (separator : Char → Bool) (s : List Char) : List (List Char) :=
  (s.splitOnP separator).filter fun word => !word.isEmpty

/-- `str::to_ascii_lowercase`. -/
def asciiLowercase (s : List Char) : List Char := s.map Char.toLower

/-- Unicode data outside ASCII. -/
structure UnicodeTables where
  /-- The lowercase of one character, which may depend on the text around it (the final sigma
  does). -/
  lowercaseAt : (before : List Char) → Char → (after : List Char) → List Char
  /-- The properties `Alphabetic` and `Numeric` together. -/
  isAlphanumeric : Char → Bool
  /-- Characters `char::escape_debug` leaves as they are. -/
  printsAsItself : Char → Bool
  /-- Characters of ASCII are lowercased as ASCII. -/
  lowercase_ascii : ∀ before c after, isAscii c = true → lowercaseAt before c after = [c.toLower]
  /-- Any other character leaves one outside ASCII, except the Kelvin sign, whose lowercase is
  the letter k. -/
  lowercase_other : ∀ before c after, isAscii c = false →
    (∃ x ∈ lowercaseAt before c after, isAscii x = false) ∨
    (c = '\u212a' ∧ lowercaseAt before c after = ['k'])

/-- `str::to_lowercase`, with the text already read. -/
def lowercaseFrom (u : UnicodeTables) : (before s : List Char) → List Char
  | _, [] => []
  | before, c :: rest => u.lowercaseAt before c rest ++ lowercaseFrom u (before ++ [c]) rest

/-- `str::to_lowercase`. -/
def lowercase (u : UnicodeTables) (s : List Char) : List Char := lowercaseFrom u [] s

/-! ## Words -/

/-- The words of a text read while already inside a word. -/
def wordsFrom (separator : Char → Bool) (read s : List Char) : List (List Char) :=
  ((s.splitOnP separator).modifyHead (read ++ ·)).filter fun word => !word.isEmpty

section Words

variable {p : Char → Bool}

theorem wordsFrom_nil_left (s : List Char) : wordsFrom p [] s = words p s := by
  unfold wordsFrom words
  congr 1
  cases s.splitOnP p with
  | nil => rfl
  | cons first others => rfl

@[simp] theorem words_nil : words p [] = [] := by simp [words]

theorem wordsFrom_nil {read : List Char} (h : read ≠ []) : wordsFrom p read [] = [read] := by
  simp [wordsFrom, h]

theorem wordsFrom_separator {c : Char} (hc : p c = true) {read : List Char} (h : read ≠ [])
    (s : List Char) : wordsFrom p read (c :: s) = read :: words p s := by
  simp [wordsFrom, words, List.splitOnP_cons_eq_if_modifyHead, hc, h]

theorem words_separator {c : Char} (hc : p c = true) (s : List Char) :
    words p (c :: s) = words p s := by
  simp [words, List.splitOnP_cons_eq_if_modifyHead, hc]

theorem wordsFrom_letter {c : Char} (hc : p c = false) (read s : List Char) :
    wordsFrom p read (c :: s) = wordsFrom p (read ++ [c]) s := by
  unfold wordsFrom
  congr 1
  rw [List.splitOnP_cons_eq_if_modifyHead, hc]
  cases s.splitOnP p with
  | nil => rfl
  | cons first others => simp

theorem words_letter {c : Char} (hc : p c = false) (s : List Char) :
    words p (c :: s) = wordsFrom p [c] s := by
  rw [← wordsFrom_nil_left, wordsFrom_letter hc, List.nil_append]

theorem wordsFrom_ne_nil {read s : List Char} (hread : read ≠ []) : wordsFrom p read s ≠ [] := by
  induction s generalizing read with
  | nil => simp [wordsFrom_nil hread]
  | cons c rest ih =>
    cases hc : p c with
    | true => simp [wordsFrom_separator hc hread]
    | false =>
      rw [wordsFrom_letter hc]
      exact ih (by simp)

theorem wordsFrom_eq_cons {read s word : List Char} {more : List (List Char)} (hread : read ≠ [])
    (h : wordsFrom p read s = word :: more) :
    ∃ tail after, s = tail ++ after ∧ word = read ++ tail ∧ (∀ c ∈ tail, p c = false) ∧
      (∀ c, after.head? = some c → p c = true) ∧ words p after = more := by
  induction s generalizing read with
  | nil =>
    rw [wordsFrom_nil hread] at h
    cases h
    exact ⟨[], [], rfl, by simp, by simp, by simp, by simp⟩
  | cons c rest ih =>
    cases hc : p c with
    | true =>
      rw [wordsFrom_separator hc hread] at h
      cases h
      refine ⟨[], c :: rest, rfl, by simp, by simp, ?_, words_separator hc rest⟩
      intro x hx
      cases hx
      exact hc
    | false =>
      rw [wordsFrom_letter hc] at h
      obtain ⟨tail, after, rfl, rfl, htail, hafter, hmore⟩ := ih (by simp) h
      refine ⟨c :: tail, after, rfl, by simp, ?_, hafter, hmore⟩
      intro x hx
      rcases List.mem_cons.mp hx with rfl | hx
      · exact hc
      · exact htail x hx

/-- The first word of a text, and the text around it. -/
theorem words_eq_cons {s word : List Char} {more : List (List Char)} (h : words p s = word :: more) :
    ∃ before after, s = before ++ (word ++ after) ∧ (∀ c ∈ before, p c = true) ∧ word ≠ [] ∧
      (∀ c ∈ word, p c = false) ∧ (∀ c, after.head? = some c → p c = true) ∧
      words p after = more := by
  induction s with
  | nil => cases h
  | cons c rest ih =>
    cases hc : p c with
    | true =>
      rw [words_separator hc] at h
      obtain ⟨before, after, rfl, hbefore, hrest⟩ := ih h
      refine ⟨c :: before, after, rfl, ?_, hrest⟩
      intro x hx
      rcases List.mem_cons.mp hx with rfl | hx
      · exact hc
      · exact hbefore x hx
    | false =>
      rw [words_letter hc] at h
      obtain ⟨tail, after, rfl, rfl, htail, hafter, hmore⟩ := wordsFrom_eq_cons (by simp) h
      refine ⟨[], after, by simp, by simp, by simp, ?_, hafter, hmore⟩
      intro x hx
      rcases List.mem_cons.mp hx with rfl | hx
      · exact hc
      · exact htail x hx

theorem words_eq_nil {s : List Char} (h : words p s = []) : ∀ c ∈ s, p c = true := by
  induction s with
  | nil => simp
  | cons c rest ih =>
    cases hc : p c with
    | true =>
      rw [words_separator hc] at h
      intro x hx
      rcases List.mem_cons.mp hx with rfl | hx
      · exact hc
      · exact ih h x hx
    | false =>
      rw [words_letter hc] at h
      exact absurd h (wordsFrom_ne_nil (by simp))

end Words

/-! ## Lines of a text, trimming -/

theorem rdropWhile_append_of_not {p : Char → Bool} {s : List Char} (hs : s ≠ [])
    (hlast : p (s.getLast hs) = false) (t : List Char) :
    (s ++ t).rdropWhile p = s ++ t.rdropWhile p := by
  induction t using List.reverseRecOn with
  | nil =>
    rw [List.append_nil, List.rdropWhile_nil, List.append_nil]
    apply List.rdropWhile_eq_self_iff.mpr
    intro _
    simp [hlast]
  | append_singleton t c ih =>
    rw [← List.append_assoc]
    cases hc : p c with
    | true => rw [List.rdropWhile_concat_pos _ _ _ hc, List.rdropWhile_concat_pos _ _ _ hc, ih]
    | false =>
      have hn : ¬ p c = true := by simp [hc]
      rw [List.rdropWhile_concat_neg _ _ _ hn, List.rdropWhile_concat_neg _ _ _ hn,
        List.append_assoc]

/-! ## Lower case -/

theorem lowercaseFrom_ascii (u : UnicodeTables) (before : List Char) {s : List Char}
    (h : ∀ c ∈ s, isAscii c = true) : lowercaseFrom u before s = asciiLowercase s := by
  induction s generalizing before with
  | nil => rfl
  | cons c rest ih =>
    have hc := h c List.mem_cons_self
    have hrest := ih (before ++ [c]) fun d hd => h d (List.mem_cons_of_mem _ hd)
    rw [lowercaseFrom, u.lowercase_ascii before c rest hc, hrest]
    rfl

theorem mem_lowercaseFrom (u : UnicodeTables) {before s : List Char} {c : Char} (hc : c ∈ s) :
    ∃ left right, ∀ x ∈ u.lowercaseAt left c right, x ∈ lowercaseFrom u before s := by
  induction s generalizing before with
  | nil => cases hc
  | cons d rest ih =>
    rcases List.mem_cons.mp hc with rfl | hc
    · exact ⟨before, rest, fun x hx => List.mem_append_left _ hx⟩
    · obtain ⟨left, right, h⟩ := @ih (before ++ [d]) hc
      exact ⟨left, right, fun x hx => List.mem_append_right _ (h x hx)⟩

theorem toLower_eq_self {c : Char} (h : isAscii c = false) : c.toLower = c := by
  have hn : ¬ c.toNat < 128 := by simpa [isAscii] using h
  have hz : ¬ (c.val ≥ 65 ∧ c.val ≤ 90) := by
    rintro ⟨-, hle⟩
    have : c.val.toNat ≤ 90 := UInt32.le_iff_toNat_le.mp hle
    exact hn (by show c.val.toNat < 128; omega)
  simp [Char.toLower, hz]

/-- A text whose ASCII lower case is an ASCII word is that word in lower case. -/
theorem lowercase_of_asciiLowercase (u : UnicodeTables) {s word : List Char}
    (hword : ∀ c ∈ word, isAscii c = true) (h : asciiLowercase s = word) :
    lowercase u s = word := by
  rw [lowercase, lowercaseFrom_ascii u [] ?_, h]
  intro c hc
  -- a character outside ASCII would still be in the lowercased word
  by_contra hn
  have hn : isAscii c = false := by simpa using hn
  have hmem : c ∈ word := by
    rw [← h, ← toLower_eq_self hn]
    exact List.mem_map_of_mem hc
  rw [hword c hmem] at hn
  cases hn

/-- The converse holds for words without a k. -/
theorem asciiLowercase_of_lowercase (u : UnicodeTables) {s word : List Char}
    (hword : ∀ c ∈ word, isAscii c = true) (hk : 'k' ∉ word) (h : lowercase u s = word) :
    asciiLowercase s = word := by
  rw [lowercase] at h
  rw [← h, lowercaseFrom_ascii u [] ?_]
  intro c hc
  by_contra hn
  have hn : isAscii c = false := by simpa using hn
  obtain ⟨left, right, hmem⟩ := @mem_lowercaseFrom u [] _ _ hc
  rw [h] at hmem
  rcases u.lowercase_other left c right hn with ⟨x, hx, hxn⟩ | ⟨-, hkelvin⟩
  · rw [hword x (hmem x hx)] at hxn
    cases hxn
  · exact hk (hmem 'k' (by rw [hkelvin]; exact List.mem_singleton_self _))

end Sshelter.Text
