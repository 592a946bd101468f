import Sshelter.Session.Protocol
import Sshelter.Lib.Result

/-! # Frames survive the transport

However a reader cuts a stream into pieces, reading it gives what the bytes of the stream say: the
frames that were written, in order, and the end of the stream after them.  A stream that is no
sequence of written frames ends in an error, and no frame is made up from a part of one.
-/

namespace Sshelter.Session

open Wire (Bytes word wordValue)

/-! ## Filling a buffer -/

/-- What filling a buffer finds at the front of the stream. -/
def front (length : Nat) (filled pending : Bytes) : Except FrameError (Option Bytes) :=
  if length ≤ filled.length + pending.length then .ok (some (filled ++ pending.take (length - filled.length)))
  else if filled ++ pending = [] then .ok none
  else .error .Truncated

/-- A reader without failing calls. -/
def Reader.Steady (self : Reader) : Prop := ∀ message, .failed message ∉ self.steps

/-- A result of reading from the stream: an error of a call of the reader, or what the bytes say.  Of the reader's calls
only the later ones are left. -/
inductive ReadsAs {α : Type} (reader : Reader) (expected : Except FrameError α) (left : Bytes) :
    Except FrameError α × Reader → Prop where
  | failed (message : String) (after : Reader) (here : .failed message ∈ reader.steps) :
      ReadsAs reader expected left (.error (.Io message), after)
  | done (steps : List ReadStep) (later : steps <:+ reader.steps) :
      ReadsAs reader expected left (expected, ⟨left, steps⟩)

theorem ReadsAs.later {α : Type} {reader after : Reader} {expected : Except FrameError α} {left : Bytes}
    {result : Except FrameError α × Reader} (reads : ReadsAs after expected left result)
    (fewer : after.steps <:+ reader.steps) : ReadsAs reader expected left result := by
  cases reads with
  | failed message last here => exact .failed message last (fewer.subset here)
  | done steps later => exact .done steps (later.trans fewer)

/-- A piece that fits moves from the stream into the buffer. -/
theorem front_append {length : Nat} {filled got : Bytes} (rest : Bytes) (fits : filled.length + got.length ≤ length) :
    front length (filled ++ got) rest = front length filled (got ++ rest) ∧
      rest.drop (length - (filled ++ got).length) = (got ++ rest).drop (length - filled.length) := by
  have room : length - filled.length = got.length + (length - (filled ++ got).length) := by
    simp only [List.length_append]
    omega
  refine ⟨?_, ?_⟩
  · rw [front, front, room, List.take_length_add_append, List.append_assoc, List.append_assoc]
    simp only [List.length_append, Nat.add_assoc]
  · rw [room, List.drop_length_add_append]

theorem readFull_readsAs (length : Nat) (filled : Bytes) (reader : Reader) (room : filled.length ≤ length) :
    ReadsAs reader (front length filled reader.pending) (reader.pending.drop (length - filled.length))
      (readFull length filled reader) := by
  fun_induction readFull length filled reader with
  | case1 filled reader open_ after called =>
    obtain ⟨count, none_, left, _, some_, fewer⟩ := Reader.read_bytes called
    -- a call with room in the buffer only returns nothing at the end
    have ended : reader.pending = [] := by
      have := some_ (Nat.sub_pos_of_lt open_)
      rcases List.take_eq_nil_iff.mp none_.symm with rfl | ended
      · omega
      · exact ended
    obtain ⟨pending, steps⟩ := after
    rw [ended, List.drop_nil] at left
    obtain rfl : pending = [] := left
    have short : ¬ length ≤ filled.length + ([] : Bytes).length := Nat.not_le_of_lt open_
    have result : (if filled.isEmpty then .ok none else .error .Truncated) = front length filled reader.pending := by
      rw [front, ended, if_neg short, List.append_nil]
      cases filled with
      | nil => rfl
      | cons first more => rfl
    rw [result, ended, List.drop_nil, ← ended]
    exact .done steps fewer
  | case2 filled reader open_ first more after called ih =>
    obtain ⟨count, got, left, fits, _, fewer⟩ := Reader.read_bytes called
    have whole : reader.pending = first :: more ++ after.pending := by rw [got, left, List.take_append_drop]
    have fits : filled.length + (first :: more).length ≤ length := by
      rw [got, List.length_take]
      omega
    obtain ⟨same, sameLeft⟩ := front_append after.pending fits
    rw [whole, ← same, ← sameLeft]
    exact (ih (by rwa [List.length_append])).later fewer
  | case3 filled reader open_ after called ih =>
    obtain ⟨steps, same⟩ := Reader.read_interrupted called
    rw [← same]
    exact (ih room).later (steps ▸ List.suffix_cons _ _)
  | case4 filled reader open_ message after called =>
    exact .failed message after (Reader.read_failed called ▸ List.mem_cons_self)
  | case5 filled reader full =>
    have none_ : length - filled.length = 0 := by omega
    rw [front, if_pos (by omega), none_, List.take_zero, List.append_nil, List.drop_zero]
    exact .done reader.steps (List.suffix_refl _)

theorem front_of_le {length : Nat} {pending : Bytes} (enough : length ≤ pending.length) :
    front length [] pending = .ok (some (pending.take length)) := by
  rw [front, if_pos (by simpa using enough)]
  rfl

/-! ## One frame -/

/-- What the bytes after the header say. -/
def bodyAt (length : Nat) : Bytes → Except FrameError (Option Frame) × Bytes
  | [] => (.error .Truncated, [])
  | kind :: more =>
    if more.length < length - 1 then (.error .Truncated, [])
    else ((frameOf kind (more.take (length - 1))).map some, more.drop (length - 1))

/-- What the bytes of a stream say about its first frame, and the bytes after it. -/
def frameAt : Bytes → Except FrameError (Option Frame) × Bytes
  | [] => (.ok none, [])
  | a :: b :: c :: d :: rest =>
    if wordValue a b c d = 0 then (.error .Empty, rest)
    else if wordValue a b c d > MAX_FRAME then (.error (.TooLarge (wordValue a b c d)), rest)
    else bodyAt (wordValue a b c d) rest
  | _ => (.error .Truncated, [])

/-- A payload is there completely or not at all. -/
def payloadAt (size : Nat) (pending : Bytes) : Except FrameError (Option Bytes) :=
  if size ≤ pending.length then .ok (some (pending.take size))
  else if pending = [] then .ok none
  else .error .Truncated

theorem readPayload_readsAs (size : Nat) (reader : Reader) :
    ReadsAs reader (payloadAt size reader.pending) (reader.pending.drop size) (readPayload size reader) := by
  unfold readPayload payloadAt
  by_cases none_ : size = 0
  · subst none_
    exact .done reader.steps (List.suffix_refl _)
  · rw [if_neg none_]
    have filled := readFull_readsAs size [] reader (Nat.zero_le _)
    rw [front, List.length_nil, Nat.zero_add] at filled
    exact filled

theorem readBody_readsAs (length : Nat) (reader : Reader) :
    ReadsAs reader (bodyAt length reader.pending).1 (bodyAt length reader.pending).2 (readBody length reader) := by
  have first := readFull_readsAs 1 [] reader (Nat.zero_le _)
  unfold readBody
  cases pending : reader.pending with
  | nil =>
    rw [pending] at first
    generalize readFull 1 [] reader = result at first ⊢
    cases first with
    | failed message after here => exact .failed message after here
    | done steps later => exact .done steps later
  | cons kind more =>
    rw [pending, front_of_le (by simp)] at first
    change ReadsAs reader (.ok (some [kind])) more _ at first
    generalize readFull 1 [] reader = result at first ⊢
    cases first with
    | failed message after here => exact .failed message after here
    | done steps later =>
      have payload := readPayload_readsAs (length - 1) ⟨more, steps⟩
      dsimp only [List.headD_cons, bodyAt]
      generalize readPayload (length - 1) ⟨more, steps⟩ = result at payload ⊢
      cases payload with
      | failed message after here => exact .failed message after (later.subset here)
      | done steps' later' =>
        unfold payloadAt
        by_cases few : more.length < length - 1
        · have left : more.drop (length - 1) = [] := List.drop_eq_nil_of_le (Nat.le_of_lt few)
          rw [if_pos few, if_neg (Nat.not_le_of_lt few), left]
          by_cases empty : more = []
          · rw [if_pos empty]
            exact .done steps' (later'.trans later)
          · rw [if_neg empty]
            exact .done steps' (later'.trans later)
        · rw [if_neg few, if_pos (Nat.le_of_not_lt few)]
          exact .done steps' (later'.trans later)

/-- Reading a frame gives what the bytes say, or an error of the reader. -/
theorem readFrame_readsAs (reader : Reader) :
    ReadsAs reader (frameAt reader.pending).1 (frameAt reader.pending).2 (readFrame reader) := by
  have header := readFull_readsAs 4 [] reader (Nat.zero_le _)
  unfold readFrame
  generalize readFull 4 [] reader = result at header ⊢
  cases header with
  | failed message after here => exact .failed message after here
  | done steps later =>
    match reader.pending with
    | [] => exact .done steps later
    | [_] | [_, _] | [_, _, _] => exact .done steps later
    | a :: b :: c :: d :: rest =>
      rw [front_of_le (by simp), frameAt]
      change ReadsAs reader _ _ (if wordValue a b c d = 0 then (.error .Empty, ⟨rest, steps⟩)
        else if wordValue a b c d > MAX_FRAME then (.error (.TooLarge (wordValue a b c d)), ⟨rest, steps⟩)
        else readBody (wordValue a b c d) ⟨rest, steps⟩)
      split
      · exact .done steps later
      · split
        · exact .done steps later
        · exact (readBody_readsAs (wordValue a b c d) ⟨rest, steps⟩).later later

/-! ## Written frames -/

def Frame.kind : Frame → UInt8
  | .Control _ => CONTROL
  | .Data _ => DATA

def Frame.payload : Frame → Bytes
  | .Control payload => payload
  | .Data payload => payload

theorem frameOf_eq_ok {kind : UInt8} {payload : Bytes} {frame : Frame} :
    frameOf kind payload = .ok frame ↔ frame.kind = kind ∧ frame.payload = payload := by
  constructor
  · intro found
    unfold frameOf at found
    split at found
    next control =>
      cases found
      exact ⟨control.symm, rfl⟩
    next =>
      split at found
      next data =>
        cases found
        exact ⟨data.symm, rfl⟩
      next => cases found
  · rintro ⟨rfl, rfl⟩
    cases frame <;> rfl

theorem writeFrame_eq_ok {kind : UInt8} {payload text : Bytes} :
    writeFrame kind payload = .ok text ↔
      payload.length + 1 ≤ MAX_FRAME ∧ text = word (payload.length + 1) ++ kind :: payload := by
  unfold writeFrame
  split
  next large => simp [Nat.not_le_of_lt large]
  next fits => simp [Nat.le_of_not_lt fits, eq_comm]

/-- A length the reader can see in the header. -/
theorem frameAt_word {n : Nat} (small : n < 4294967296) (rest : Bytes) :
    frameAt (word n ++ rest) =
      if n = 0 then (.error .Empty, rest)
      else if n > MAX_FRAME then (.error (.TooLarge n), rest)
      else bodyAt n rest := by
  rw [word]
  simp only [List.cons_append, List.nil_append, frameAt, Wire.wordValue_word small]

theorem frameAt_written {kind : UInt8} {payload text : Bytes} (written : writeFrame kind payload = .ok text) (rest : Bytes) :
    frameAt (text ++ rest) = ((frameOf kind payload).map some, rest) := by
  obtain ⟨fits, rfl⟩ := writeFrame_eq_ok.mp written
  have small : payload.length + 1 < 4294967296 := Nat.lt_of_le_of_lt fits (by decide)
  rw [List.append_assoc, frameAt_word small, if_neg (Nat.succ_ne_zero _), if_neg (Nat.not_lt_of_le fits), List.cons_append,
    bodyAt, if_neg (by simp), Nat.add_sub_cancel, List.take_left, List.drop_left]

/-- A frame is only found where it was written, and the end only where nothing is left. -/
theorem frameAt_eq_ok {bytes rest : Bytes} {result : Option Frame} (found : frameAt bytes = (.ok result, rest)) :
    (bytes = [] ∧ result = none) ∨
      ∃ frame text, result = some frame ∧ writeFrame frame.kind frame.payload = .ok text ∧ bytes = text ++ rest := by
  match bytes with
  | [] =>
    cases found
    exact .inl ⟨rfl, rfl⟩
  | [_] | [_, _] | [_, _, _] => cases found
  | a :: b :: c :: d :: more =>
    right
    rw [frameAt] at found
    split at found
    next => cases found
    next some_ =>
      split at found
      next => cases found
      next fits =>
        match more with
        | [] => cases found
        | kind :: more =>
          rw [bodyAt] at found
          split at found
          next => cases found
          next enough =>
            obtain ⟨found, rfl⟩ := Prod.mk.inj found
            cases parsed : frameOf kind (more.take (wordValue a b c d - 1)) with
            | error e =>
              rw [parsed] at found
              cases found
            | ok frame =>
              rw [parsed] at found
              cases found
              obtain ⟨rfl, payload⟩ := frameOf_eq_ok.mp parsed
              -- the payload's length and the type byte are the length that was written
              have length : frame.payload.length + 1 = wordValue a b c d := by
                rw [payload, List.length_take]
                omega
              have whole : frame.kind :: more.take (wordValue a b c d - 1) ++ more.drop (wordValue a b c d - 1) =
                  frame.kind :: more := by
                rw [List.cons_append, List.take_append_drop]
              refine ⟨frame, _, rfl, writeFrame_eq_ok.mpr ⟨by omega, rfl⟩, ?_⟩
              rw [length, Wire.word_wordValue, payload, List.append_assoc, whole]
              rfl

/-! ## Whole streams -/

/-- A call of `read_frame` without an error: the end of the stream, or a frame written at its front. -/
theorem readFrame_eq_ok {reader after : Reader} {result : Option Frame} (read : readFrame reader = (.ok result, after)) :
    (reader.pending = [] ∧ result = none) ∨
      ∃ frame text, result = some frame ∧ writeFrame frame.kind frame.payload = .ok text ∧
        reader.pending = text ++ after.pending := by
  have reads := readFrame_readsAs reader
  rw [read] at reads
  generalize found : frameAt reader.pending = said at reads
  obtain ⟨verdict, rest⟩ := said
  cases reads with
  | done steps later => exact frameAt_eq_ok found

theorem readFrame_shorter {reader after : Reader} {frame : Frame} (read : readFrame reader = (.ok (some frame), after)) :
    after.pending.length < reader.pending.length := by
  obtain ⟨_, none_⟩ | ⟨_, text, _, written, parts⟩ := readFrame_eq_ok read
  · cases none_
  · obtain ⟨_, rfl⟩ := writeFrame_eq_ok.mp written
    rw [parts]
    simp only [List.length_append, List.length_cons]
    omega

/-- Frames are read until the stream ends or one cannot be read: the frames, and the error. -/
def readFrames (reader : Reader) : List Frame × Option FrameError :=
  match _called : readFrame reader with
  | (.error e, _) => ([], some e)
  | (.ok none, _) => ([], none)
  | (.ok (some frame), after) =>
    let (frames, stop) := readFrames after
    (frame :: frames, stop)
termination_by reader.pending.length
decreasing_by exact readFrame_shorter _called

/-- A reader without failing calls gives what the bytes say. -/
theorem readFrame_steady {reader : Reader} (steady : reader.Steady) :
    ∃ after : Reader, readFrame reader = ((frameAt reader.pending).1, after) ∧
      after.pending = (frameAt reader.pending).2 ∧ after.Steady := by
  have reads := readFrame_readsAs reader
  generalize readFrame reader = result at reads
  cases reads with
  | failed message after here => exact absurd here (steady message)
  | done steps later => exact ⟨_, rfl, rfl, fun message here => steady message (later.subset here)⟩

theorem readFrames_of_none {reader after : Reader} (read : readFrame reader = (.ok none, after)) :
    readFrames reader = ([], none) := by
  rw [readFrames]
  split
  next called => rw [read] at called; cases called
  next => rfl
  next called => rw [read] at called; cases called

theorem readFrames_of_some {reader after : Reader} {frame : Frame} (read : readFrame reader = (.ok (some frame), after)) :
    readFrames reader = (frame :: (readFrames after).1, (readFrames after).2) := by
  rw [readFrames]
  split
  next called => rw [read] at called; cases called
  next called => rw [read] at called; cases called
  next called =>
    rw [read] at called
    cases called
    rfl

/-- The type byte and payload of a frame. -/
def Frame.parts (frame : Frame) : UInt8 × Bytes := (frame.kind, frame.payload)

/-- Written frames are read back one by one. -/
theorem readFrames_written {frames : List (UInt8 × Bytes)} {texts : List Bytes}
    (known : ∀ frame ∈ frames, frame.1 = CONTROL ∨ frame.1 = DATA)
    (written : List.Forall₂ (fun frame text => writeFrame frame.1 frame.2 = .ok text) frames texts) {reader : Reader}
    (stream : reader.pending = texts.flatten) (steady : reader.Steady) :
    (readFrames reader).1.map Frame.parts = frames ∧ (readFrames reader).2 = none := by
  induction written generalizing reader with
  | nil =>
    obtain ⟨after, read, _, _⟩ := readFrame_steady steady
    rw [stream] at read
    rw [readFrames_of_none read]
    exact ⟨rfl, rfl⟩
  | @cons parts text frames texts first others ih =>
    obtain ⟨here, known⟩ := List.forall_mem_cons.mp known
    obtain ⟨after, read, left, steady⟩ := readFrame_steady steady
    rw [stream, List.flatten_cons, frameAt_written first] at read left
    obtain ⟨frame, parsed⟩ : ∃ frame, frameOf parts.1 parts.2 = .ok frame := by
      rcases here with control | data
      · exact ⟨.Control parts.2, by rw [frameOf, if_pos control]⟩
      · exact ⟨.Data parts.2, frameOf_eq_ok.mpr ⟨data.symm, rfl⟩⟩
    rw [parsed] at read
    obtain ⟨kind, payload⟩ := frameOf_eq_ok.mp parsed
    obtain ⟨same, ended⟩ := ih known left steady
    rw [readFrames_of_some read]
    exact ⟨by rw [List.map_cons, same, Frame.parts, kind, payload], ended⟩

/-- A stream read to its end is the concatenation of the frames read. -/
theorem readFrames_to_end {reader : Reader} (ended : (readFrames reader).2 = none) :
    ∃ texts, List.Forall₂ (fun frame text => writeFrame frame.kind frame.payload = .ok text) (readFrames reader).1 texts ∧
      reader.pending = texts.flatten := by
  fun_induction readFrames reader with
  | case1 => cases ended
  | case2 reader after called =>
    obtain ⟨empty, _⟩ | ⟨_, _, some_, _⟩ := readFrame_eq_ok called
    · exact ⟨[], .nil, empty⟩
    · cases some_
  | case3 reader frame after called frames stop rest ih =>
    obtain ⟨_, none_⟩ | ⟨_, text, same, written, parts⟩ := readFrame_eq_ok called
    · cases none_
    · cases same
      rw [rest] at ih
      obtain ⟨texts, each, left⟩ := ih ended
      exact ⟨text :: texts, .cons written each, by rw [parts, left, List.flatten_cons]⟩

/-! ## Other streams -/

/-- The call ends in an error: this one, unless the reader failed itself. -/
def Reader.Refuses (self : Reader) (error : FrameError) : Prop :=
  ∃ e, (readFrame self).1 = .error e ∧ (self.Steady → e = error)

theorem refuses_of_frameAt {reader : Reader} {error : FrameError} {rest : Bytes}
    (found : frameAt reader.pending = (.error error, rest)) : reader.Refuses error := by
  have reads := readFrame_readsAs reader
  rw [found] at reads
  unfold Reader.Refuses
  generalize readFrame reader = result at reads ⊢
  cases reads with
  | failed message after here => exact ⟨.Io message, rfl, fun steady => absurd here (steady message)⟩
  | done steps later => exact ⟨error, rfl, fun _ => rfl⟩

/-- A front of a text with a header holds less than the header, or all of it. -/
theorem append_eq_word {pending missing tail : Bytes} {n : Nat} (parts : word n ++ tail = pending ++ missing) :
    pending.length < 4 ∨ ∃ more, pending = word n ++ more ∧ tail = more ++ missing := by
  rcases Nat.lt_or_ge pending.length 4 with short | long
  · exact .inl short
  · right
    obtain ⟨more, whole, rest⟩ | ⟨more, whole, rest⟩ := List.append_eq_append_iff.mp parts
    · exact ⟨more, whole, rest⟩
    · have lengths : 4 = pending.length + more.length := by
        rw [← List.length_append, ← whole]
        rfl
      obtain rfl : more = [] := List.eq_nil_of_length_eq_zero (by omega)
      rw [List.append_nil] at whole
      exact ⟨[], by rw [List.append_nil, whole], by rw [rest]; rfl⟩

/-- A stream that ends inside a frame. -/
theorem frameAt_cut {kind : UInt8} {payload text pending missing : Bytes} (written : writeFrame kind payload = .ok text)
    (parts : text = pending ++ missing) (some_ : pending ≠ []) (cut : missing ≠ []) :
    frameAt pending = (.error .Truncated, []) := by
  obtain ⟨fits, rfl⟩ := writeFrame_eq_ok.mp written
  obtain short | ⟨more, rfl, rest⟩ := append_eq_word parts
  · match pending with
    | [] => exact absurd rfl some_
    | [_] | [_, _] | [_, _, _] => rfl
    | _ :: _ :: _ :: _ :: rest =>
      simp only [List.length_cons] at short
      omega
  · have small : payload.length + 1 < 4294967296 := Nat.lt_of_le_of_lt fits (by decide)
    rw [frameAt_word small, if_neg (Nat.succ_ne_zero _), if_neg (Nat.not_lt_of_le fits)]
    cases more with
    | nil => rfl
    | cons first more =>
      obtain ⟨_, whole⟩ := List.cons.inj rest
      have short : more.length < payload.length := by
        have := List.length_pos_iff.mpr cut
        simp only [whole, List.append_eq, List.length_append]
        omega
      rw [bodyAt, Nat.add_sub_cancel, if_pos short]

/-- Frames survive the transport.  Written control and data frames are read back whole and in order, with the end of the
stream after them, however the reader delivers them.  A frame that is read was written, a stream read to its end is a
sequence of written frames, and a stream that begins with no whole frame is refused. -/
theorem frames_survive_transport :
    (∀ (frames : List (UInt8 × Bytes)) (texts : List Bytes) (reader : Reader),
      (∀ frame ∈ frames, frame.1 = CONTROL ∨ frame.1 = DATA) →
      frames.mapM (fun frame => writeFrame frame.1 frame.2) = .ok texts →
      reader.pending = texts.flatten → reader.Steady →
      (readFrames reader).1.map Frame.parts = frames ∧ (readFrames reader).2 = none) ∧
    (∀ (reader : Reader),
      (∀ frame after, readFrame reader = (.ok (some frame), after) →
        ∃ text, writeFrame frame.kind frame.payload = .ok text ∧ reader.pending = text ++ after.pending) ∧
      ((readFrame reader).1 = .ok none → reader.pending = []) ∧
      ((readFrames reader).2 = none →
        ∃ texts, List.Forall₂ (fun frame text => writeFrame frame.kind frame.payload = .ok text) (readFrames reader).1 texts ∧
          reader.pending = texts.flatten) ∧
      (∀ kind payload text missing, writeFrame kind payload = .ok text → text = reader.pending ++ missing →
        reader.pending ≠ [] → missing ≠ [] → reader.Refuses .Truncated) ∧
      (∀ rest, reader.pending = word 0 ++ rest → reader.Refuses .Empty) ∧
      (∀ n rest, MAX_FRAME < n → n < 4294967296 → reader.pending = word n ++ rest → reader.Refuses (.TooLarge n)) ∧
      ∀ kind payload text rest, kind ≠ CONTROL → kind ≠ DATA → writeFrame kind payload = .ok text →
        reader.pending = text ++ rest → reader.Refuses (.UnknownType kind)) := by
  refine ⟨?written, fun reader => ⟨?front, ?ended, readFrames_to_end, ?cut, ?empty, ?large, ?unknown⟩⟩
  case written =>
    intro frames texts reader known written stream steady
    exact readFrames_written known (Result.mapM_forall₂ written) stream steady
  case front =>
    intro frame after read
    obtain ⟨_, none_⟩ | ⟨_, text, same, written, parts⟩ := readFrame_eq_ok read
    · cases none_
    · cases same
      exact ⟨text, written, parts⟩
  case ended =>
    intro ended
    obtain ⟨empty, _⟩ | ⟨_, _, some_, _⟩ := readFrame_eq_ok (Prod.ext ended rfl : readFrame reader = (_, (readFrame reader).2))
    · exact empty
    · cases some_
  case cut =>
    intro kind payload text missing written parts some_ cut
    exact refuses_of_frameAt (frameAt_cut written parts some_ cut)
  case empty =>
    intro rest stream
    have found : frameAt reader.pending = (.error .Empty, rest) := by rw [stream, frameAt_word (by decide), if_pos rfl]
    exact refuses_of_frameAt found
  case large =>
    intro n rest large small stream
    have found : frameAt reader.pending = (.error (.TooLarge n), rest) := by
      rw [stream, frameAt_word small, if_neg (Nat.ne_of_gt (Nat.zero_lt_of_lt large)), if_pos large]
    exact refuses_of_frameAt found
  case unknown =>
    intro kind payload text rest noControl noData written stream
    have found : frameAt reader.pending = (.error (.UnknownType kind), rest) := by
      rw [stream, frameAt_written written, frameOf, if_neg noControl, if_neg noData]
      rfl
    exact refuses_of_frameAt found

end Sshelter.Session
