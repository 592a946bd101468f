import Sshelter.Lib.Words

/-! # Words of a joined text

Words put together with a separator between them are split again into the same words.
-/

namespace Sshelter.Text

variable {p : Char → Bool}

/-- A run of characters outside the class. -/
structure IsWord (p : Char → Bool) (word : List Char) : Prop where
  some_ : word ≠ []
  letters : ∀ c ∈ word, p c = false

theorem wordsFrom_word {word : List Char} (letters : ∀ c ∈ word, p c = false) (read : List Char) (some_ : read ++ word ≠ []) :
    wordsFrom p read word = [read ++ word] := by
  induction word generalizing read with
  | nil =>
    rw [List.append_nil] at some_ ⊢
    exact wordsFrom_nil some_
  | cons c rest ih =>
    obtain ⟨letter, others⟩ := List.forall_mem_cons.mp letters
    rw [wordsFrom_letter letter, ih others _ (by simp), List.append_assoc]
    rfl

theorem IsWord.words {word : List Char} (here : IsWord p word) : words p word = [word] := by
  rw [← wordsFrom_nil_left, wordsFrom_word here.letters [] here.some_, List.nil_append]

theorem isWord_iff {word : List Char} : IsWord p word ↔ words p word = [word] := by
  refine ⟨IsWord.words, fun single => ?_⟩
  obtain ⟨before, after, parts, _, some_, letters, _, _⟩ := words_eq_cons single
  exact ⟨some_, letters⟩

theorem mem_words {s word : List Char} (member : word ∈ words p s) : IsWord p word := by
  induction found : words p s generalizing s with
  | nil =>
    rw [found] at member
    cases member
  | cons first more ih =>
    obtain ⟨_, after, _, _, some_, letters, _, others⟩ := words_eq_cons found
    rw [found] at member
    obtain rfl | member := List.mem_cons.mp member
    · exact ⟨some_, letters⟩
    · exact ih (by rwa [others]) others

theorem flatMap_words {ts : List (List Char)} (each : ∀ t ∈ ts, IsWord p t) : ts.flatMap (words p) = ts := by
  induction ts with
  | nil => rfl
  | cons t rest ih =>
    obtain ⟨first, others⟩ := List.forall_mem_cons.mp each
    rw [List.flatMap_cons, first.words, ih others]
    rfl

theorem wordsFrom_append {c : Char} (separator : p c = true) {read : List Char} (some_ : read ≠ []) (a b : List Char) :
    wordsFrom p read (a ++ c :: b) = wordsFrom p read a ++ words p b ∧
      words p (a ++ c :: b) = words p a ++ words p b := by
  induction a generalizing read with
  | nil =>
    rw [List.nil_append, wordsFrom_separator separator some_, wordsFrom_nil some_, words_separator separator, words_nil]
    exact ⟨rfl, rfl⟩
  | cons d rest ih =>
    cases letter : p d with
    | true =>
      obtain ⟨_, later⟩ := ih some_
      rw [List.cons_append, wordsFrom_separator letter some_, wordsFrom_separator letter some_, words_separator letter,
        words_separator letter, later]
      exact ⟨rfl, rfl⟩
    | false =>
      obtain ⟨here, _⟩ := @ih (read ++ [d]) (by simp)
      obtain ⟨first, _⟩ := @ih [d] (by simp)
      rw [List.cons_append, wordsFrom_letter letter, wordsFrom_letter letter, words_letter letter, words_letter letter,
        here, first]
      exact ⟨rfl, rfl⟩

theorem words_append {c : Char} (separator : p c = true) (a b : List Char) :
    words p (a ++ c :: b) = words p a ++ words p b := (wordsFrom_append separator (List.cons_ne_nil c []) a b).2

theorem words_intercalate {c : Char} (separator : p c = true) (ts : List (List Char)) :
    words p ([c].intercalate ts) = ts.flatMap (words p) := by
  induction ts with
  | nil => simp [List.intercalate]
  | cons t rest ih =>
    cases rest with
    | nil => simp [List.intercalate]
    | cons next more =>
      rw [List.intercalate_cons_cons, List.append_assoc, List.singleton_append, words_append separator, ih]
      rfl

/-- Words joined with a separator are the words of the text. -/
theorem words_intercalate_words {c : Char} (separator : p c = true) {ts : List (List Char)}
    (each : ∀ t ∈ ts, IsWord p t) : words p ([c].intercalate ts) = ts := by
  rw [words_intercalate separator, flatMap_words each]

end Sshelter.Text
