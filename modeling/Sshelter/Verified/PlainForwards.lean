import Sshelter.Config.OpenSshForward
import Sshelter.Sync.Approval
import Sshelter.Verified.HostText

/-! # Forwardings that need no approval

A forwarding passes without a question only as a bare port, with a plain target behind it.
OpenSSH cuts both shapes into fields none of which is a bind address or a listening socket.
-/

namespace Sshelter.Sync.Approval

open Text Config HostsFile

/-! ## Fields -/

/-- A field without a colon and a backslash ends at the first colon or with the text. -/
theorem plainField_append {text after : List Char} (plain : ∀ c ∈ text, c ≠ ':' ∧ c ≠ '\\')
    (ends : after = [] ∨ ∃ rest, after = ':' :: rest) :
    OpenSsh.plainField (text ++ after) = some (⟨text, text.contains '/'⟩, after.tail) := by
  induction text with
  | nil =>
    obtain rfl | ⟨rest, rfl⟩ := ends
    · rfl
    · simp [OpenSsh.plainField]
  | cons c more ih =>
    obtain ⟨⟨colon, slash⟩, others⟩ := List.forall_mem_cons.mp plain
    rw [List.cons_append, OpenSsh.plainField]
    · rw [if_neg colon, ih others]
      by_cases here : c = '/'
      · simp [here]
      · have other : '/' ≠ c := fun same => here same.symm
        simp [here, other]
    · exact fun same => absurd same slash
    · exact fun _ _ same => absurd same slash

theorem forwardField_append {text after : List Char} (plain : ∀ c ∈ text, c ≠ ':' ∧ c ≠ '\\')
    (bracket : text.head? ≠ some '[') (some_ : text ≠ []) (ends : after = [] ∨ ∃ rest, after = ':' :: rest) :
    OpenSsh.forwardField (text ++ after) = some (⟨text, text.contains '/'⟩, after.tail) := by
  obtain ⟨c, more, rfl⟩ := List.exists_cons_of_ne_nil some_
  have other : c ≠ '[' := by simpa using bracket
  rw [OpenSsh.forwardField]
  · exact plainField_append plain ends
  · exact fun rest same => other (List.cons.inj same).1

theorem forwardField_bracket {text rest : List Char} (plain : ']' ∉ text) :
    OpenSsh.forwardField ('[' :: (text ++ ']' :: ':' :: rest)) = some (⟨text, text.contains '/'⟩, rest) := by
  have inside : ∀ c ∈ text, (c != ']') = true := by
    intro c member
    simp only [bne_iff_ne]
    exact fun same => plain (same ▸ member)
  have stop : (']' != ']') = false := by decide
  simp [OpenSsh.forwardField, OpenSsh.bracketField, List.takeWhile_append_of_pos inside,
    List.dropWhile_append_of_pos inside]

/-- Digits hold nothing that a forwarding is cut at. -/
theorem isBarePort.plain {port : List Char} (bare : isBarePort port = true) :
    port ≠ [] ∧ (∀ c ∈ port, c ≠ ':' ∧ c ≠ '\\') ∧ port.head? ≠ some '[' ∧ port.contains '/' = false ∧ '$' ∉ port := by
  simp only [isBarePort, Bool.and_eq_true, Bool.not_eq_true', List.isEmpty_eq_false_iff, List.all_eq_true] at bare
  obtain ⟨some_, digits⟩ := bare
  have other {c : Char} (member : c ∈ port) {d : Char} (notDigit : d.isDigit = false) : c ≠ d := by
    rintro rfl
    rw [digits c member] at notDigit
    cases notDigit
  refine ⟨some_, fun c member => ⟨other member rfl, other member rfl⟩, ?_, ?_, fun member => other member rfl rfl⟩
  · intro head
    exact other (List.mem_of_head? head) rfl rfl
  · simpa using fun member => other member rfl rfl

theorem isBarePort.unquoted {port : List Char} (bare : isBarePort port = true) :
    ∀ c ∈ port, isQuoteOrEscape c = false := by
  simp only [isBarePort, Bool.and_eq_true, List.all_eq_true] at bare
  intro c member
  have digit := bare.2 c member
  simp only [isQuoteOrEscape, Bool.or_eq_false_iff, decide_eq_false_iff_not]
  refine ⟨⟨?_, ?_⟩, ?_⟩ <;> (rintro rfl; cases digit)

/-! ## Targets -/

theorem splitOnce_eq_some {separator s before after : List Char} (split : splitOnce separator s = some (before, after)) :
    s = before ++ (separator ++ after) := by
  induction s generalizing before with
  | nil =>
    rw [splitOnce, Option.ite_none_right_eq_some] at split
    obtain ⟨none_, same⟩ := split
    cases same
    rw [List.isEmpty_iff.mp none_]
    rfl
  | cons c rest ih =>
    rw [splitOnce] at split
    split at split
    · next here =>
      cases split
      obtain ⟨tail, same⟩ := List.isPrefixOf_iff_prefix.mp here
      rw [← same, List.drop_left, List.nil_append]
    · obtain ⟨⟨front, back⟩, found, same⟩ := Option.map_eq_some_iff.mp split
      cases same
      rw [List.cons_append, ← ih found]

/-- The text is split at the first separator. -/
theorem splitOnce_first {c : Char} {s before after : List Char} (split : splitOnce [c] s = some (before, after)) :
    c ∉ before := by
  induction s generalizing before with
  | nil => cases split
  | cons d rest ih =>
    rw [splitOnce] at split
    split at split
    · cases split
      exact List.not_mem_nil
    · next other =>
      obtain ⟨⟨front, back⟩, found, same⟩ := Option.map_eq_some_iff.mp split
      cases same
      have different : c ≠ d := by
        rintro rfl
        exact other (by simp)
      simpa [different] using ih found

/-- The shapes of a plain target: a socket path without a colon, or a host, in brackets or without a colon, and a
port. -/
inductive PlainTarget : List Char → Prop where
  | path {rest : List Char} (single : ':' ∉ '/' :: rest) : PlainTarget ('/' :: rest)
  | bracketed {host port : List Char} (closed : ']' ∉ host) (bare : isBarePort port = true) :
      PlainTarget ('[' :: (host ++ ']' :: ':' :: port))
  | named {host port : List Char} (some_ : host ≠ []) (bracket : host.head? ≠ some '[') (single : ':' ∉ host)
      (bare : isBarePort port = true) : PlainTarget (host ++ ':' :: port)

theorem isPlainForwardTarget.shape {target : List Char} (plain : isPlainForwardTarget target = true) :
    (∀ c ∈ target, c ≠ '$' ∧ isQuoteOrEscape c = false) ∧ PlainTarget target := by
  unfold isPlainForwardTarget at plain
  split at plain
  · cases plain
  · next clean =>
    refine ⟨?_, ?_⟩
    · intro c member
      have here : ¬ (c = '$' ∨ c = '\\' ∨ c = '"' ∨ c = '\'') := by
        intro special
        refine clean (List.any_eq_true.mpr ⟨c, member, ?_⟩)
        simpa [or_assoc] using special
      simp only [not_or] at here
      exact ⟨here.1, by simp [isQuoteOrEscape, here]⟩
    · split at plain
      · next slash =>
        obtain ⟨rest, rfl⟩ := List.head?_eq_some_iff.mp slash
        exact .path (by simpa using plain)
      · dsimp only at plain
        split at plain
        · cases plain
        · next host port split_ =>
          simp only [Bool.and_eq_true, Bool.not_eq_true', List.isEmpty_eq_false_iff, List.any_eq_false,
            Bool.or_eq_true, decide_eq_true_eq, not_or] at plain
          obtain ⟨⟨some_, brackets⟩, bare⟩ := plain
          split at split_
          · next bracket =>
            obtain ⟨rest, rfl⟩ := List.head?_eq_some_iff.mp bracket
            have parts := splitOnce_eq_some split_
            rw [List.tail_cons] at parts
            rw [parts]
            exact .bracketed (fun member => (brackets _ member).2 rfl) bare
          · have parts := splitOnce_eq_some split_
            rw [parts]
            exact .named some_ (fun head => (brackets _ (List.mem_of_head? head)).1 rfl) (splitOnce_first split_) bare

/-! ## Forwardings -/

theorem forwardFields_cons {s after : List Char} {field : OpenSsh.ForwardField}
    (first : OpenSsh.forwardField s = some (field, after)) (some_ : s ≠ []) (n : Nat) :
    OpenSsh.forwardFields (n + 1) s = (OpenSsh.forwardFields n after).map (field :: ·) := by
  obtain ⟨c, more, rfl⟩ := List.exists_cons_of_ne_nil some_
  simp only [OpenSsh.forwardFields, first, Option.bind_eq_bind, Option.bind_some]
  cases OpenSsh.forwardFields n after <;> rfl

theorem forwardFields_last {text : List Char} (n : Nat) (plain : ∀ c ∈ text, c ≠ ':' ∧ c ≠ '\\')
    (bracket : text.head? ≠ some '[') (some_ : text ≠ []) :
    OpenSsh.forwardFields (n + 1) text = some [⟨text, text.contains '/'⟩] := by
  have field := forwardField_append plain bracket some_ (.inl rfl)
  rw [List.append_nil] at field
  rw [forwardFields_cons field some_, List.tail_nil, OpenSsh.forwardFields, Option.map_some]

theorem forwardFields_next {text after : List Char} (n : Nat) (plain : ∀ c ∈ text, c ≠ ':' ∧ c ≠ '\\')
    (bracket : text.head? ≠ some '[') (some_ : text ≠ []) :
    OpenSsh.forwardFields (n + 1) (text ++ ':' :: after) =
      (OpenSsh.forwardFields n after).map (⟨text, text.contains '/'⟩ :: ·) :=
  forwardFields_cons (forwardField_append plain bracket some_ (.inr ⟨after, rfl⟩)) (by simp) n

/-- A bare port in front of a plain target listens on no address of its own. -/
theorem readForward_local {port target : List Char} (bare : isBarePort port = true)
    (clean : ∀ c ∈ target, c ≠ '$' ∧ isQuoteOrEscape c = false) (plain : PlainTarget target) :
    ∃ forward, OpenSsh.readForward false [port, target] = some forward ∧ forward.listenHost = none ∧
      forward.listenPath = none := by
  obtain ⟨portSome, portPlain, portBracket, portPath, portDollar⟩ := isBarePort.plain bare
  have dollar : (port ++ ':' :: target).contains '$' = false := by
    simp only [List.contains_eq_mem, decide_eq_false_iff_not, List.mem_append, List.mem_cons, not_or]
    exact ⟨portDollar, by decide, fun member => (clean _ member).1 rfl⟩
  have escape (c : Char) (member : c ∈ target) : c ≠ '\\' := by
    rintro rfl
    have quote := (clean _ member).2
    cases quote
  have read : OpenSsh.readForward false [port, target] =
      ((OpenSsh.forwardFields 3 target).map (⟨port, false⟩ :: ·)).bind (OpenSsh.forwardOf false) := by
    simp only [OpenSsh.readForward, Option.bind_some, dollar, Bool.false_eq_true, if_false]
    rw [forwardFields_next 3 portPlain portBracket portSome, portPath]
  rw [read]
  cases plain with
  | @path rest single =>
    have text (c : Char) (member : c ∈ '/' :: rest) : c ≠ ':' ∧ c ≠ '\\' :=
      ⟨fun same => single (same ▸ member), escape c member⟩
    rw [forwardFields_last 2 text (by simp) (by simp)]
    exact ⟨_, rfl, rfl, rfl⟩
  | @bracketed host target closed bareTarget =>
    obtain ⟨targetSome, targetPlain, targetBracket, targetPath, _⟩ := isBarePort.plain bareTarget
    have fields : OpenSsh.forwardFields 3 ('[' :: (host ++ ']' :: ':' :: target)) =
        some [⟨host, host.contains '/'⟩, ⟨target, target.contains '/'⟩] := by
      rw [forwardFields_cons (forwardField_bracket closed) (by simp),
        forwardFields_last 1 targetPlain targetBracket targetSome, Option.map_some]
    rw [fields, targetPath]
    exact ⟨_, rfl, rfl, rfl⟩
  | @named host target hostSome bracket single bareTarget =>
    obtain ⟨targetSome, targetPlain, targetBracket, targetPath, _⟩ := isBarePort.plain bareTarget
    have text (c : Char) (member : c ∈ host) : c ≠ ':' ∧ c ≠ '\\' :=
      ⟨fun same => single (same ▸ member), escape c (List.mem_append_left _ member)⟩
    rw [forwardFields_next 2 text bracket hostSome, forwardFields_last 1 targetPlain targetBracket targetSome, targetPath]
    exact ⟨_, rfl, rfl, rfl⟩

theorem readForward_dynamic {port : List Char} (bare : isBarePort port = true) :
    ∃ forward, OpenSsh.readForward true [port] = some forward ∧ forward.listenHost = none ∧
      forward.listenPath = none := by
  obtain ⟨some_, plain, bracket, path, dollar⟩ := isBarePort.plain bare
  have dollar : port.contains '$' = false := by simpa using dollar
  simp only [OpenSsh.readForward, Option.bind_some, dollar, Bool.false_eq_true, if_false]
  rw [forwardFields_last 3 plain bracket some_, path]
  exact ⟨_, rfl, rfl, rfl⟩

/-! ## Arguments -/

/-- Words without quotes and escapes, up to a comment, are the arguments ssh reads. -/
theorem argvSplit_words {s : List Char} {args : List (List Char)}
    (read : (words isBlank s).takeWhile (fun word => word.head? != some '#') = args)
    (plain : ∀ word ∈ args, ∀ c ∈ word, isQuoteOrEscape c = false) : OpenSsh.argvSplit s = some args := by
  rw [OpenSsh.argvSplit]
  -- the induction follows the words: the first is read letter by letter, a blank ends it
  induction args generalizing s with
  | nil =>
    cases found : words isBlank s with
    | nil =>
      have blanks := argvSplitFrom_blanks (words_eq_nil found) []
      rw [List.append_nil] at blanks
      rw [blanks, OpenSsh.argvSplitFrom]
    | cons word more =>
      obtain ⟨before, after, rfl, blanks, some_, _, _, _⟩ := words_eq_cons found
      have comment : word.head? = some '#' := by
        rw [found] at read
        by_contra other
        rw [List.takeWhile_cons_of_pos (by simpa using other)] at read
        cases read
      obtain ⟨rest, rfl⟩ := List.head?_eq_some_iff.mp comment
      rw [argvSplitFrom_blanks blanks, List.cons_append, argvSplitFrom_comment]
  | cons word args ih =>
    cases found : words isBlank s with
    | nil =>
      rw [found] at read
      cases read
    | cons first more =>
      have visible : first.head? ≠ some '#' := by
        intro comment
        rw [found, List.takeWhile_cons_of_neg (by simp [comment])] at read
        cases read
      rw [found, List.takeWhile_cons_of_pos (by simpa using visible)] at read
      obtain ⟨rfl, others⟩ := List.cons.inj read
      obtain ⟨before, after, rfl, blanks, some_, letters, ends, tail⟩ := words_eq_cons found
      obtain ⟨here, later⟩ := List.forall_mem_cons.mp plain
      obtain ⟨c, rest, rfl⟩ := List.exists_cons_of_ne_nil some_
      have text (x : Char) (member : x ∈ c :: rest) := And.intro (letters x member) (here x member)
      have notHash : c ≠ '#' := by simpa using visible
      rw [argvSplitFrom_blanks blanks, List.cons_append, argvSplitFrom_letter (text c List.mem_cons_self).1
        (text c List.mem_cons_self).2 notHash, argvSplitFrom_word fun x member => text x (List.mem_cons_of_mem _ member)]
      cases after with
      | nil =>
        rw [← tail, words_nil, List.takeWhile_nil] at others
        rw [← others, OpenSsh.argvSplitFrom]
        rfl
      | cons b after =>
        have blank := ends b rfl
        rw [words_separator blank] at tail
        rw [argvSplitFrom_blank_in_word blank, ih (by rw [tail]; exact others) later]
        rfl

/-- A forwarding that passes without approval listens on no address and no socket of its own. -/
theorem ungated_forwards_are_plain (d : Directive)
    (forwards : d.key = "localforward".toList ∨ d.key = "dynamicforward".toList) (ungated : isGated d = false) :
    d.serializesAsComment = true ∨ ∃ args forward, OpenSsh.argvSplit (restOfLine d) = some args ∧
      OpenSsh.readForward (d.key = "dynamicforward".toList) args = some forward ∧
      forward.listenHost = none ∧ forward.listenPath = none := by
  cases live : d.serializesAsComment with
  | true => exact .inl rfl
  | false =>
    refine .inr ?_
    simp only [isGated, live, Bool.not_false, Bool.true_and, Bool.or_eq_false_iff] at ungated
    have plain := ungated.1.1.2
    unfold gatedForward at plain
    obtain key | key := forwards
    · have other : ¬ d.key = "dynamicforward".toList := by
        rw [key]
        decide
      simp only [if_pos key] at plain
      -- a port and a plain target; with anything else the directive is gated
      split at plain
      · next port target args =>
        simp only [Bool.not_eq_false', Bool.and_eq_true] at plain
        obtain ⟨bare, isPlain⟩ := plain
        obtain ⟨clean, shape⟩ := isPlainForwardTarget.shape isPlain
        obtain ⟨forward, read, host, path⟩ := readForward_local bare clean shape
        refine ⟨_, forward, argvSplit_words args ?_, by rw [decide_eq_false other, read], host, path⟩
        intro word member
        simp only [List.mem_cons, List.not_mem_nil, or_false] at member
        obtain rfl | rfl := member
        · exact isBarePort.unquoted bare
        · exact fun c member => (clean c member).2
      · cases plain
    · have other : ¬ d.key = "localforward".toList := by
        rw [key]
        decide
      simp only [if_neg other, if_pos key] at plain
      split at plain
      · next port args =>
        simp only [Bool.not_eq_false'] at plain
        obtain ⟨forward, read, host, path⟩ := readForward_dynamic plain
        refine ⟨_, forward, argvSplit_words args ?_, by rw [decide_eq_true key, read], host, path⟩
        intro word member
        rw [List.mem_singleton.mp member]
        exact isBarePort.unquoted plain
      · cases plain

def Sample.forward : Directive where
  keyword := "LocalForward".toList
  key := "localforward".toList
  value := "8080 [::1]:80".toList
  separator := .Space [' ']
  indent := []
  trailingWs := []
  inlineComment := none
  enabled := true
  raw := "LocalForward 8080 [::1]:80".toList
  dirty := false

theorem sample_forward_is_plain :
    Sample.forward.serializesAsComment = true ∨ ∃ args forward,
      OpenSsh.argvSplit (restOfLine Sample.forward) = some args ∧
        OpenSsh.readForward (Sample.forward.key = "dynamicforward".toList) args = some forward ∧
        forward.listenHost = none ∧ forward.listenPath = none :=
  ungated_forwards_are_plain Sample.forward (.inl rfl) (by decide +kernel)

end Sshelter.Sync.Approval
