import Sshelter.Ssh.RusshEngine
import Sshelter.Verified.EditedText

/-! # What is shown of a server's texts

Every line of a prompt names the hop that asks, whatever the server wrote into it.  The banners of a login
are one text with a cap, in whatever pieces it comes and whenever it is looked at.
-/

namespace Sshelter.Session

open Ssh

variable {σ Material ε : Type}

/-! ## Printable characters -/

@[simp] theorem printableChar_idem {c : Char} : printableChar (printableChar c) = printableChar c := by
  by_cases replaced : ((Text.isControl c && c != '\n' && c != '\t') || isDeceptiveFormat c) = true
  · rw [printableChar, printableChar, if_pos replaced]
    rfl
  · have kept : printableChar c = c := if_neg replaced
    rw [kept, kept]

theorem plain_of_mem_printableChars {c : Char} {text : List Char} (member : c ∈ printableChars text) :
    printableChar c = c := by
  induction text using printableChars.induct with
  | case1 rest ih =>
    rw [printableChars] at member
    obtain rfl | later := List.mem_cons.mp member
    · exact printableChar_idem
    · exact ih later
  | case2 d rest other ih =>
    rw [printableChars] at member
    · obtain rfl | later := List.mem_cons.mp member
      · exact printableChar_idem
      · exact ih later
    · exact other
  | case3 => cases member

theorem plain_of_mem_labelChars {c : Char} {name : String} (member : c ∈ labelChars name) :
    printableChar c = c ∧ c ≠ '\n' := by
  obtain ⟨d, inside, rfl⟩ := List.mem_map.mp member
  split
  · exact ⟨rfl, nofun⟩
  · rename_i other
    exact ⟨plain_of_mem_printableChars inside, fun same => other (.inl same)⟩

theorem plain_of_mem_askedBy {c : Char} {hop : HopRef} (member : c ∈ askedBy hop) : printableChar c = c ∧ c ≠ '\n' := by
  simp only [askedBy, List.mem_append, List.mem_cons, List.not_mem_nil, or_false, or_assoc] at member
  obtain rfl | user | rfl | name | rfl | rfl := member
  · exact ⟨rfl, nofun⟩
  · exact plain_of_mem_labelChars user
  · exact ⟨rfl, nofun⟩
  · exact plain_of_mem_labelChars name
  · exact ⟨rfl, nofun⟩
  · exact ⟨rfl, nofun⟩

/-! ## Prompts -/

/-- What follows the last line feed of a text that ends with one. -/
def lastLine (text : List Char) : List (List Char) := if text.getLast? = some '\n' then [[]] else []

theorem splitOn_lastLine {text : List Char} :
    text.splitOn '\n' =
      (if text.getLast? = some '\n' then text.dropLast else text).splitOn '\n' ++ lastLine text := by
  rw [lastLine]
  split
  · rename_i ended
    have whole : text.dropLast ++ ['\n'] = text := List.dropLast_append_getLast? _ ended
    calc text.splitOn '\n' = (text.dropLast ++ '\n' :: []).splitOn '\n' := by rw [whole]
      _ = text.dropLast.splitOn '\n' ++ [[]] := List.splitOn_append_cons_self _ _
  · rw [List.append_nil]

/-- Every line of a server's prompt is shown behind the real user and alias of the hop that asks, and nothing
of the prompt is shown anywhere else: what the server wrote is the text behind them, line by line, and the
line after a last line feed is empty.  No character in it moves the cursor or turns the text around. -/
theorem prompt_lines_name_the_asker (hop : HopRef) (text : String) : ∃ lines,
    (printable text).toList.splitOn '\n' = lines ++ lastLine (printable text).toList ∧
      (shownPrompt hop text).toList.splitOn '\n' = lines.map (askedBy hop ++ ·) ++ lastLine (printable text).toList ∧
      ∀ c ∈ (shownPrompt hop text).toList, printableChar c = c := by
  have chars : (printable text).toList = printableChars text.toList := String.toList_ofList
  rw [chars]
  set written := printableChars text.toList with written_eq
  set body := if written.getLast? = some '\n' then written.dropLast else written with body_eq
  refine ⟨body.splitOn '\n', splitOn_lastLine, ?_⟩
  have plain : ∀ c ∈ body, printableChar c = c := by
    intro c member
    have inside : c ∈ printableChars text.toList := by
      rw [body_eq] at member
      split at member
      · exact List.mem_of_mem_dropLast member
      · exact member
    exact plain_of_mem_printableChars inside
  -- No line feed is left inside a line: neither the name in front nor a piece of the split has one.
  have apart : ∀ line ∈ (body.splitOn '\n').map (askedBy hop ++ ·), '\n' ∉ line := by
    intro line member inside
    obtain ⟨own, part, rfl⟩ := List.mem_map.mp member
    obtain asked | here := List.mem_append.mp inside
    · exact (plain_of_mem_askedBy asked).2 rfl
    · exact Config.not_mem_of_mem_splitOn part here
  have some_ : (body.splitOn '\n').map (askedBy hop ++ ·) ≠ [] := by
    rw [Ne, List.map_eq_nil_iff]
    exact List.splitOn_ne_nil _ _
  have lines := List.splitOn_intercalate '\n' apart some_
  have shown : (shownPrompt hop text).toList =
      ['\n'].intercalate ((body.splitOn '\n').map (askedBy hop ++ ·)) ++ if written.getLast? = some '\n' then ['\n'] else [] := by
    rw [shownPrompt, String.toList_ofList]
    simp only [← written_eq, ← body_eq]
    split <;> simp
  refine ⟨?_, fun c member => ?_⟩
  · rw [shown, lastLine]
    split
    · rw [List.splitOn_append_cons_self, lines, List.splitOn_nil]
    · rw [List.append_nil, List.append_nil, lines]
  · by_cases feed : c = '\n'
    · rw [feed]
      rfl
    rw [shown] at member
    obtain inside | ended := List.mem_append.mp member
    · obtain ⟨line, own, inside⟩ := (Config.mem_intercalate feed _).mp inside
      obtain ⟨part, split_, rfl⟩ := List.mem_map.mp own
      obtain asked | here := List.mem_append.mp inside
      · exact (plain_of_mem_askedBy asked).1
      · have whole : ['\n'].intercalate (body.splitOn '\n') = body := List.intercalate_splitOn '\n'
        refine plain c ?_
        rw [← whole]
        exact (Config.mem_intercalate feed _).mpr ⟨part, split_, here⟩
    · split at ended
      · exact absurd (List.mem_singleton.mp ended) feed
      · cases ended

/-! ## Banners -/

/-- The bytes of a text. -/
def byteSize (text : List Char) : Nat := (text.map Char.utf8Size).sum

@[simp] theorem byteSize_append {first second : List Char} :
    byteSize (first ++ second) = byteSize first + byteSize second := by
  simp [byteSize]

theorem utf8ByteSize_ofList {text : List Char} : (String.ofList text).utf8ByteSize = byteSize text := by
  induction text with
  | nil => rfl
  | cons c rest ih =>
    have whole : String.ofList (c :: rest) = String.singleton c ++ String.ofList rest :=
      String.toList_injective (by simp)
    rw [whole, String.utf8ByteSize_append, String.utf8ByteSize_singleton, ih]
    simp [byteSize]

theorem utf8ByteSize_eq {text : String} : text.utf8ByteSize = byteSize text.toList := by
  rw [← utf8ByteSize_ofList, String.ofList_toList]

/-- What fits of a text whose front fits as a whole. -/
theorem fitting_append {room : Nat} {front rest : List Char} (fits : byteSize front ≤ room) :
    fitting room (front ++ rest) = front ++ fitting (room - byteSize front) rest := by
  induction front generalizing room with
  | nil => simp [byteSize]
  | cons c front ih =>
    simp only [byteSize, List.map_cons, List.sum_cons] at fits
    rw [List.cons_append, fitting, if_pos (by omega), ih (by rw [byteSize]; omega), List.cons_append]
    simp only [byteSize, List.map_cons, List.sum_cons, Nat.sub_sub]

/-- What follows a text that does not fit changes nothing. -/
theorem fitting_append_of_lt {room : Nat} {front rest : List Char} (cut : room < byteSize front) :
    fitting room (front ++ rest) = fitting room front := by
  induction front generalizing room with
  | nil => simp [byteSize] at cut
  | cons c front ih =>
    simp only [byteSize, List.map_cons, List.sum_cons] at cut
    rw [List.cons_append, fitting, fitting]
    split
    · rw [ih (by rw [byteSize]; omega)]
    · rfl

theorem byteSize_fitting {room : Nat} {text : List Char} : byteSize (fitting room text) ≤ room := by
  induction text generalizing room with
  | nil => exact Nat.zero_le _
  | cons c rest ih =>
    rw [fitting]
    split
    · have less : byteSize (fitting (room - c.utf8Size) rest) ≤ room - c.utf8Size := ih
      simp only [byteSize, List.map_cons, List.sum_cons] at less ⊢
      omega
    · exact Nat.zero_le _

/-- The text ends in the middle of a line. -/
def openLine (text : List Char) : Bool := text.getLast?.any (· != '\n')

/-- All that is shown of a server's banners: the text as far as it fits, and a notice when it does not. -/
def shownBanner (sent : List Char) : List Char :=
  if byteSize sent ≤ MAX_BANNER_BYTES then sent
  else
    let kept := fitting MAX_BANNER_BYTES sent
    kept ++ (if openLine kept then ['\n'] else []) ++ BANNER_CUT_NOTICE.toList

/-- The banners so far, after so much was delivered of what was sent. -/
structure Banners.Holds (banners : Banners) (delivered sent : List Char) : Prop where
  shown : delivered ++ banners.pending.toList = shownBanner sent
  capped : banners.capped = decide (MAX_BANNER_BYTES < byteSize sent)
  counted : byteSize sent ≤ MAX_BANNER_BYTES →
    banners.accepted = byteSize sent ∧ banners.lineOpen = openLine sent

theorem Banners.holds_new : Banners.Holds {} [] [] := ⟨rfl, rfl, fun _ => ⟨rfl, rfl⟩⟩

theorem openLine_append {front rest : List Char} :
    openLine (front ++ rest) = (rest.getLast?.map (· != '\n')).getD (openLine front) := by
  rw [openLine, List.getLast?_append]
  cases rest.getLast? <;> rfl

theorem Banners.Holds.push {banners : Banners} {delivered sent : List Char} (holds : banners.Holds delivered sent)
    (text : String) : (banners.push text).Holds delivered (sent ++ text.toList) := by
  rw [Banners.push]
  -- Once the cap was passed nothing is kept, and what is shown of a longer text is the same.
  by_cases full : MAX_BANNER_BYTES < byteSize sent
  · rw [holds.capped, if_pos (decide_eq_true full)]
    have more : MAX_BANNER_BYTES < byteSize (sent ++ text.toList) := by
      rw [byteSize_append]
      omega
    refine ⟨?_, ?_, fun fits => absurd more (Nat.not_lt.mpr fits)⟩
    · rw [holds.shown, shownBanner, shownBanner, if_neg (Nat.not_le.mpr full), if_neg (Nat.not_le.mpr more),
        fitting_append_of_lt full]
    · rw [holds.capped, decide_eq_true full, decide_eq_true more]
  · rw [holds.capped, if_neg (by simpa using full)]
    have fits := Nat.not_lt.mp full
    obtain ⟨accepted, lineOpen⟩ := holds.counted fits
    have pending : delivered ++ banners.pending.toList = sent := by rw [holds.shown, shownBanner, if_pos fits]
    have size : text.utf8ByteSize = byteSize text.toList := utf8ByteSize_eq
    dsimp only
    rw [accepted]
    by_cases room : text.utf8ByteSize ≤ MAX_BANNER_BYTES - byteSize sent
    · have more : byteSize (sent ++ text.toList) ≤ MAX_BANNER_BYTES := by
        rw [byteSize_append]
        omega
      rw [if_pos room, if_neg (Nat.lt_irrefl _)]
      refine ⟨?_, ?_, fun _ => ⟨?_, ?_⟩⟩
      · rw [String.toList_append, ← List.append_assoc, pending, shownBanner, if_pos more]
      · show decide (MAX_BANNER_BYTES < byteSize sent) = decide (MAX_BANNER_BYTES < byteSize (sent ++ text.toList))
        rw [decide_eq_false full, decide_eq_false (Nat.not_lt.mpr more)]
      · rw [byteSize_append, size]
      · rw [lineOpen, openLine_append]
    · have more : ¬byteSize (sent ++ text.toList) ≤ MAX_BANNER_BYTES := by
        rw [byteSize_append]
        omega
      have kept : byteSize (fitting (MAX_BANNER_BYTES - byteSize sent) text.toList) < byteSize text.toList := by
        have most : byteSize (fitting (MAX_BANNER_BYTES - byteSize sent) text.toList) ≤ MAX_BANNER_BYTES - byteSize sent :=
          byteSize_fitting
        omega
      rw [if_neg room, utf8ByteSize_ofList, size, if_pos kept]
      refine ⟨?_, ?_, fun fits => absurd fits more⟩
      · rw [shownBanner, if_neg more, fitting_append fits]
        dsimp only
        rw [openLine_append, String.toList_ofList, lineOpen]
        split
        · simp only [String.toList_append, String.toList_ofList, ← List.append_assoc, pending]
          rfl
        · simp only [String.toList_append, String.toList_ofList, ← List.append_assoc, pending, List.append_nil]
      · rw [decide_eq_true (Nat.not_le.mp more)]

/-- The texts of a login: each time the engine looks, it takes what has arrived since. -/
def deliveries : List (List String) → Call ε (Run σ Material) (List String)
  | [] => return []
  | arrived :: rest => do
    let text ← RusshEngine.takeBanners arrived
    return text.toList ++ (← deliveries rest)

theorem Banners.Holds.arrive {banners : Banners} {delivered sent : List Char} (holds : banners.Holds delivered sent)
    (arrived : List String) :
    (arrived.foldl Banners.push banners).Holds delivered (sent ++ arrived.flatMap String.toList) := by
  induction arrived generalizing banners sent with
  | nil => simpa using holds
  | cons text rest ih =>
    rw [List.foldl_cons, List.flatMap_cons, ← List.append_assoc]
    exact ih (holds.push text)

theorem Banners.Holds.take {banners : Banners} {delivered sent : List Char} (holds : banners.Holds delivered sent) :
    banners.take.2.Holds (delivered ++ banners.take.1.toList.flatMap String.toList) sent ∧
      banners.take.2.pending = "" := by
  rw [Banners.take]
  split
  · rename_i none_
    exact ⟨by simpa using holds, by simpa using none_⟩
  · refine ⟨⟨?_, holds.capped, holds.counted⟩, rfl⟩
    simpa using holds.shown

theorem deliveries_shown {delivered sent : List Char} {batches : List (List String)}
    {failed : ε → Run σ Material → Prop} :
    Call.Ensures (fun run => run.banners.Holds delivered sent ∧ run.banners.pending = "") (deliveries batches)
      (fun texts _ => delivered ++ texts.flatMap String.toList =
        shownBanner (sent ++ batches.flatten.flatMap String.toList)) failed := by
  induction batches generalizing delivered sent with
  | nil =>
    refine .pure fun run start => ?_
    have shown := start.1.shown
    rw [start.2] at shown
    simpa using shown
  | cons arrived rest ih =>
    have takes : Call.Ensures (fun run => run.banners.Holds delivered sent ∧ run.banners.pending = "")
        (RusshEngine.takeBanners arrived)
        (fun text run => run.banners.Holds (delivered ++ text.toList.flatMap String.toList)
          (sent ++ arrived.flatMap String.toList) ∧ run.banners.pending = "") failed :=
      fun run start => (start.1.arrive arrived).take
    refine takes.bind fun text => ih.bind fun texts => .pure fun run kept => ?_
    rw [List.flatten_cons, List.flatMap_append, List.flatMap_append, ← List.append_assoc, ← List.append_assoc]
    exact kept

/-- What is delivered of a login's banners is one text, whatever pieces the server sent it in and whenever the
engine looked: the server's text, cut after the last character that fits in the cap, and then one notice on a
line of its own. -/
theorem banners_are_one_text (batches : List (List String)) :
    Call.Ensures (fun run : Run σ Material => run.banners = {}) (deliveries batches)
      (fun texts _ => texts.flatMap String.toList = shownBanner (batches.flatten.flatMap String.toList))
      fun (_ : ε) _ => False := by
  have shows : Call.Ensures (fun run : Run σ Material => run.banners.Holds [] [] ∧ run.banners.pending = "")
      (deliveries batches)
      (fun texts _ => [] ++ texts.flatMap String.toList = shownBanner ([] ++ batches.flatten.flatMap String.toList))
      fun (_ : ε) _ => False := deliveries_shown
  refine shows.before fun run start => ?_
  rw [start]
  exact ⟨Banners.holds_new, rfl⟩

end Sshelter.Session
