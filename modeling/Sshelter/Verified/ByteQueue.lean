import Sshelter.Ssh.Channel

/-! # What comes out of the queue

Over any sequence of pushes, reads and closes: the reads return the kept chunks in order, with
notices only after a chunk, and the counts in the notices add up to what was dropped there.
-/

namespace Sshelter.Ssh

open Wire (Bytes textBytes)

/-! ## A notice -/

theorem textBytes_append (a b : String) : textBytes (a ++ b) = textBytes a ++ textBytes b := by
  simp [textBytes]

/-- A notice is 71 bytes and the digits of the count. -/
theorem notice_length (n : Nat) : (notice n).length = 71 + (textBytes (toString n)).length := by
  have before : (textBytes "\r\n[Lunport dropped ").length = 19 := by decide
  have after : (textBytes " bytes of output because the terminal fell behind]\r\n").length = 52 := by decide
  simp only [notice, textBytes_append, List.length_append, before, after]
  omega

theorem notice_ne_nil (n : Nat) : notice n ≠ [] := by
  intro none_
  have size := notice_length n
  rw [none_] at size
  simp at size
  omega

/-! ## The state -/

/-- The bytes queued and not read yet. -/
def QueueState.unread (state : QueueState) : Bytes := state.chunks.flatten.drop state.frontRead

structure QueueState.Sound (state : QueueState) : Prop where
  filled : ∀ chunk ∈ state.chunks, chunk ≠ []
  inside : ∀ front rest, state.chunks = front :: rest → state.frontRead < front.length
  fresh : state.chunks = [] → state.frontRead = 0
  counted : state.bytes = state.unread.length

theorem QueueState.Sound.frontRead_le {state : QueueState} (sound : state.Sound) :
    state.frontRead ≤ state.chunks.flatten.length := by
  cases chunks : state.chunks with
  | nil => simp [sound.fresh chunks]
  | cons front rest =>
    have inside := sound.inside front rest chunks
    simp only [List.flatten_cons, List.length_append]
    omega

theorem QueueState.Sound.unread_eq_nil {state : QueueState} (sound : state.Sound) :
    state.unread = [] ↔ state.chunks = [] := by
  constructor
  · intro none_
    cases chunks : state.chunks with
    | nil => rfl
    | cons front rest =>
      have inside := sound.inside front rest chunks
      rw [QueueState.unread, chunks, List.drop_eq_nil_iff, List.flatten_cons, List.length_append] at none_
      omega
  · intro none_
    simp [QueueState.unread, none_]

/-! ## Appending -/

/-- What appending does, merged or not: the last chunk grows at its end or a chunk follows it. -/
theorem append_eq (state : QueueState) (chunk : Bytes) : ∃ chunks,
    append state chunk = { state with bytes := state.bytes + chunk.length, chunks } ∧
      ((chunks = state.chunks ++ [chunk]) ∨
        ∃ before back, state.chunks = before ++ [back] ∧ chunks = before ++ [back ++ chunk]) := by
  unfold append
  cases last : state.chunks.getLast? with
  | none => exact ⟨_, rfl, .inl rfl⟩
  | some back =>
    simp only
    split
    · refine ⟨_, rfl, .inr ⟨state.chunks.dropLast, back, ?_, rfl⟩⟩
      obtain ⟨before, whole⟩ := List.getLast?_eq_some_iff.mp last
      rw [whole, List.dropLast_concat]
    · exact ⟨_, rfl, .inl rfl⟩

theorem append_closed (state : QueueState) (chunk : Bytes) : (append state chunk).closed = state.closed := by
  obtain ⟨_, same, _⟩ := append_eq state chunk
  rw [same]

theorem append_bytes (state : QueueState) (chunk : Bytes) :
    (append state chunk).bytes = state.bytes + chunk.length := by
  obtain ⟨_, same, _⟩ := append_eq state chunk
  rw [same]

theorem append_dropped (state : QueueState) (chunk : Bytes) : (append state chunk).dropped = state.dropped := by
  obtain ⟨_, same, _⟩ := append_eq state chunk
  rw [same]

theorem append_unannounced (state : QueueState) (chunk : Bytes) :
    (append state chunk).unannounced = state.unannounced := by
  obtain ⟨_, same, _⟩ := append_eq state chunk
  rw [same]

theorem append_flatten (state : QueueState) (chunk : Bytes) :
    (append state chunk).chunks.flatten = state.chunks.flatten ++ chunk := by
  obtain ⟨_, same, rfl | ⟨before, back, whole, rfl⟩⟩ := append_eq state chunk
  · simp [same]
  · simp [same, whole]

theorem append_unread {state : QueueState} (sound : state.Sound) (chunk : Bytes) :
    (append state chunk).unread = state.unread ++ chunk := by
  have place : (append state chunk).frontRead = state.frontRead := by
    obtain ⟨_, same, _⟩ := append_eq state chunk
    rw [same]
  rw [QueueState.unread, place, append_flatten, List.drop_append_of_le_length sound.frontRead_le]
  rfl

/-- Appending keeps the read position valid, since the first chunk only grows at its end. -/
theorem append_sound {state : QueueState} (sound : state.Sound) {chunk : Bytes} (some_ : chunk ≠ []) :
    (append state chunk).Sound := by
  have counted : (append state chunk).bytes = (append state chunk).unread.length := by
    rw [append_bytes, append_unread sound, sound.counted, List.length_append]
  have size := List.length_pos_iff.mpr some_
  obtain ⟨chunks, same, shape⟩ := append_eq state chunk
  rw [same] at counted ⊢
  refine ⟨fun item member => ?_, fun front rest starts => ?_, fun none_ => ?_, counted⟩
  · rcases shape with rfl | ⟨before, back, whole, rfl⟩
    · rcases List.mem_append.mp member with here | here
      · exact sound.filled item here
      · rw [List.mem_singleton.mp here]
        exact some_
    · rcases List.mem_append.mp member with here | here
      · exact sound.filled item (by simp [whole, here])
      · rw [List.mem_singleton.mp here]
        simp [some_]
  · simp only at starts ⊢
    rcases shape with rfl | ⟨before, back, whole, rfl⟩
    · cases chunks : state.chunks with
      | nil =>
        rw [chunks] at starts
        obtain ⟨rfl, _⟩ := List.cons.inj starts
        rw [sound.fresh chunks]
        exact size
      | cons first others =>
        rw [chunks] at starts
        obtain ⟨rfl, _⟩ := List.cons.inj starts
        exact sound.inside first others chunks
    · cases before with
      | nil =>
        obtain ⟨rfl, _⟩ := List.cons.inj starts
        have inside := sound.inside back [] whole
        rw [List.length_append]
        omega
      | cons first others =>
        obtain ⟨rfl, _⟩ := List.cons.inj starts
        exact sound.inside first (others ++ [back]) whole
  · simp only at none_
    rcases shape with rfl | ⟨before, back, whole, rfl⟩ <;> simp at none_

/-! ## Histories -/

/-- Part of a stream: a chunk, or a gap of so many bytes. -/
inductive Piece where
  | chunk (bytes : Bytes)
  | gap (count : Nat)
deriving DecidableEq, Repr

/-- A piece as the terminal sees it: a gap is shown as its notice. -/
def Piece.shown : Piece → Bytes
  | .chunk bytes => bytes
  | .gap count => notice count

/-- The chunks in order, each with the size of the gap in front of it, and the gap after the last. -/
def addPiece (tally : List (Nat × Bytes) × Nat) : Piece → List (Nat × Bytes) × Nat
  | .chunk bytes => (tally.1 ++ [(tally.2, bytes)], 0)
  | .gap count => (tally.1, tally.2 + count)

def tally (pieces : List Piece) : List (Nat × Bytes) × Nat := pieces.foldl addPiece ([], 0)

theorem tally_snoc (pieces : List Piece) (piece : Piece) : tally (pieces ++ [piece]) = addPiece (tally pieces) piece := by
  simp [tally]

inductive Call where
  | push (chunk : Bytes)
  | close
  /-- One turn of a read's loop. -/
  | readUntil (size : Nat) (late : Bool)
deriving DecidableEq, Repr

/-- What a queue was given and has given out. -/
structure History where
  state : QueueState
  /-- The chunks that an open queue was given: kept, or dropped for lack of room. -/
  sent : List Piece
  received : Bytes

def History.start : History := { state := .new, sent := [], received := [] }

/-- What a push adds to the history.  Nothing is said of an empty chunk or of a closed queue. -/
def sentBy (state : QueueState) (chunk : Bytes) (kept : Bool) : List Piece :=
  if state.closed || chunk.isEmpty then []
  else if kept then [.chunk chunk]
  else [.gap chunk.length]

def copied : Option QueueRead → Bytes
  | some (.Bytes bytes) => bytes
  | _ => []

def History.call (capacity : Nat) (history : History) : Call → History
  | .push chunk =>
    let (kept, state) := push capacity history.state chunk
    { history with state, sent := history.sent ++ sentBy history.state chunk kept }
  | .close => { history with state := close history.state }
  | .readUntil size late =>
    let (result, state) := readUntil history.state size late
    { history with state, received := history.received ++ copied result }

def History.run (capacity : Nat) (calls : List Call) : History := calls.foldl (History.call capacity) .start

/-! ## The stream -/

/-- The stream of a history: whole chunks and whole notices, of which the queue still holds the end.  Its
chunks are the kept ones, with the gaps that the history has there but for the bytes not announced yet. -/
structure Streams (history : History) (pieces : List Piece) : Prop where
  sound : history.state.Sound
  stream : history.received ++ history.state.unread = pieces.flatMap Piece.shown
  gaps : tally history.sent = ((tally pieces).1, (tally pieces).2 + history.state.unannounced)
  positive : ∀ count, .gap count ∈ pieces → 0 < count
  begins : ∀ count, pieces.head? ≠ some (.gap count)
  untouched : pieces = [] → history.state.unannounced = 0
  settled : history.state.closed = true → history.state.unannounced = 0
  known : history.state.unannounced ≤ history.state.dropped

theorem Streams.start : Streams .start [] where
  sound := ⟨by simp [History.start, QueueState.new], by simp [History.start, QueueState.new],
    fun _ => rfl, rfl⟩
  stream := rfl
  gaps := rfl
  positive := by simp
  begins := by simp
  untouched := fun _ => rfl
  settled := fun _ => rfl
  known := Nat.le_refl 0

theorem head?_snoc_ne_gap {pieces : List Piece} (begins : ∀ count, pieces.head? ≠ some (.gap count)) {piece : Piece}
    (after : ∀ count, piece = .gap count → pieces ≠ []) (count : Nat) :
    (pieces ++ [piece]).head? ≠ some (.gap count) := by
  cases pieces with
  | nil =>
    intro same
    simp only [List.nil_append, List.head?_cons, Option.some.injEq] at same
    exact after count same rfl
  | cons first rest => simpa using begins count

/-- Announcing moves the count of unannounced bytes into the stream. -/
theorem Streams.announce {history : History} {pieces : List Piece} (streams : Streams history pieces) :
    ∃ pieces', Streams { history with state := announceGap history.state } pieces' ∧
      (announceGap history.state).unannounced = 0 := by
  unfold announceGap
  split
  · next some_ =>
    have sound : QueueState.Sound { history.state with unannounced := 0 } := ⟨streams.sound.filled,
      streams.sound.inside, streams.sound.fresh, streams.sound.counted⟩
    refine ⟨pieces ++ [.gap history.state.unannounced],
      { sound := append_sound sound (notice_ne_nil _)
        stream := ?_
        gaps := ?_
        positive := fun count member => ?_
        begins := fun count => ?_
        untouched := by simp
        settled := fun _ => append_unannounced _ _
        known := ?_ }, append_unannounced _ _⟩
    · have before := streams.stream
      simp only [append_unread sound, List.flatMap_append, List.flatMap_cons, List.flatMap_nil,
        List.append_nil, ← before, Piece.shown, List.append_assoc]
      rfl
    · rw [tally_snoc, append_unannounced]
      exact streams.gaps
    · rcases List.mem_append.mp member with here | here
      · exact streams.positive count here
      · cases List.mem_singleton.mp here
        exact some_
    · refine head?_snoc_ne_gap streams.begins (fun _ _ none_ => ?_) count
      have nothing := streams.untouched none_
      omega
    · rw [append_unannounced]
      exact Nat.zero_le _
  · next none_ => exact ⟨pieces, streams, by omega⟩

theorem Streams.push {history : History} {pieces : List Piece} (streams : Streams history pieces) (capacity : Nat)
    (chunk : Bytes) : ∃ pieces', Streams (history.call capacity (.push chunk)) pieces' := by
  simp only [History.call, Ssh.push]
  by_cases closed : history.state.closed = true
  · exact ⟨pieces, by simpa [closed, sentBy] using streams⟩
  · have open_ : history.state.closed = false := by simpa using closed
    by_cases empty : chunk = []
    · exact ⟨pieces, by simpa [open_, empty, sentBy] using streams⟩
    · have some_ : chunk.isEmpty = false := by simpa using empty
      simp only [open_, some_, Bool.false_eq_true, if_false, sentBy, Bool.or_self]
      split
      · next full =>
        refine ⟨pieces,
          { sound := ⟨streams.sound.filled, streams.sound.inside, streams.sound.fresh, streams.sound.counted⟩
            stream := streams.stream
            gaps := ?_
            positive := streams.positive
            begins := streams.begins
            untouched := fun none_ => ?_
            settled := fun closed => by simp at closed
            known := Nat.add_le_add_right streams.known _ }⟩
        · simp only [Bool.false_eq_true, if_false, tally_snoc, addPiece, streams.gaps, Nat.add_assoc]
        · -- a queue that has taken nothing is empty and drops nothing
          have stream := streams.stream
          rw [none_, List.flatMap_nil, List.append_eq_nil_iff] at stream
          have counted := streams.sound.counted
          rw [stream.2] at counted
          exact absurd counted full.1
      · -- there is room, and a gap that was not announced goes in before the chunk
        obtain ⟨announced, streams, nothing⟩ := streams.announce
        refine ⟨announced ++ [.chunk chunk],
          { sound := append_sound streams.sound empty
            stream := ?_
            gaps := ?_
            positive := fun count member => ?_
            begins := fun count => ?_
            untouched := by simp
            settled := fun _ => (append_unannounced _ _).trans nothing
            known := ?_ }⟩
        · have before := streams.stream
          simp only at before
          simp only [append_unread streams.sound, List.flatMap_append, List.flatMap_cons, List.flatMap_nil,
            List.append_nil, ← before, Piece.shown, List.append_assoc]
        · have before := streams.gaps
          simp only [nothing, Nat.add_zero] at before
          simp only [if_true, tally_snoc, addPiece, before, append_unannounced, nothing, Nat.add_zero]
        · rcases List.mem_append.mp member with here | here
          · exact streams.positive count here
          · cases List.mem_singleton.mp here
        · exact head?_snoc_ne_gap streams.begins (fun _ same => by cases same) count
        · rw [append_unannounced, nothing]
          exact Nat.zero_le _

theorem Streams.close {history : History} {pieces : List Piece} (streams : Streams history pieces) (capacity : Nat) :
    ∃ pieces', Streams (history.call capacity .close) pieces' := by
  simp only [History.call, Ssh.close]
  split
  · exact ⟨pieces, streams⟩
  · obtain ⟨announced, streams, nothing⟩ := streams.announce
    have sound := streams.sound
    exact ⟨announced,
      { sound := ⟨sound.filled, sound.inside, sound.fresh, sound.counted⟩
        stream := streams.stream
        gaps := streams.gaps
        positive := streams.positive
        begins := streams.begins
        untouched := streams.untouched
        settled := fun _ => nothing
        known := streams.known }⟩

/-! ## Reading -/

/-- Taking bytes off the front. -/
theorem read_front {state : QueueState} (sound : state.Sound) {front : Bytes} {rest : List Bytes}
    (chunks : state.chunks = front :: rest) (size : Nat) :
    taken state front size ≤ state.bytes ∧
      (front.drop state.frontRead).take (taken state front size) = state.unread.take (taken state front size) := by
  have inside := sound.inside front rest chunks
  have unread : state.unread = front.drop state.frontRead ++ rest.flatten := by
    rw [QueueState.unread, chunks, List.flatten_cons, List.drop_append_of_le_length (by omega)]
  have size_ : taken state front size ≤ (front.drop state.frontRead).length := by
    rw [taken, List.length_drop]
    exact Nat.min_le_left _ _
  refine ⟨?_, ?_⟩
  · rw [sound.counted, unread, List.length_append]
    omega
  · rw [unread, List.take_append_of_le_length size_]

/-- A read that reaches the end of the first chunk. -/
theorem read_finished {state : QueueState} (sound : state.Sound) {front : Bytes} {rest : List Bytes}
    (chunks : state.chunks = front :: rest) {count : Nat} (finished : state.frontRead + count = front.length) :
    let next := { state with bytes := state.bytes - count, chunks := rest, frontRead := 0 }
    next.Sound ∧ next.unread = state.unread.drop count := by
  intro next
  have after : next.unread = state.unread.drop count := by
    show rest.flatten.drop 0 = (state.chunks.flatten.drop state.frontRead).drop count
    rw [List.drop_drop, finished, chunks, List.flatten_cons, List.drop_left, List.drop_zero]
  refine ⟨⟨fun chunk member => sound.filled chunk (by simp [chunks, show chunk ∈ rest from member]),
    fun first others starts => ?_, fun _ => rfl, ?_⟩, after⟩
  · have member : first ∈ state.chunks := by simp [chunks, show rest = first :: others from starts]
    exact List.length_pos_iff.mpr (sound.filled first member)
  · rw [after, List.length_drop, ← sound.counted]

/-- A read that leaves some of the first chunk. -/
theorem read_unfinished {state : QueueState} (sound : state.Sound) {front : Bytes} {rest : List Bytes}
    (chunks : state.chunks = front :: rest) {count : Nat} (unfinished : state.frontRead + count < front.length) :
    let next := { state with bytes := state.bytes - count, frontRead := state.frontRead + count }
    next.Sound ∧ next.unread = state.unread.drop count := by
  intro next
  have after : next.unread = state.unread.drop count := by
    show state.chunks.flatten.drop (state.frontRead + count) = (state.chunks.flatten.drop state.frontRead).drop count
    rw [List.drop_drop]
  refine ⟨⟨sound.filled, fun first others starts => ?_, fun none_ => ?_, ?_⟩, after⟩
  · obtain ⟨rfl, _⟩ := List.cons.inj (chunks.symm.trans starts)
    exact unfinished
  · cases chunks.symm.trans none_
  · rw [after, List.length_drop, ← sound.counted]

theorem Streams.caughtUp {history : History} {pieces : List Piece} (streams : Streams history pieces) :
    ∃ pieces', Streams { history with state := caughtUp history.state } pieces' := by
  unfold Ssh.caughtUp
  split
  · obtain ⟨announced, streams, _⟩ := streams.announce
    exact ⟨announced, streams⟩
  · exact ⟨pieces, streams⟩

/-- A read takes bytes off the front of what is queued, and nothing when nothing is queued. -/
theorem readFront_eq {state : QueueState} (sound : state.Sound) (size : Nat) (late : Bool) :
    ∃ count next, count ≤ state.bytes ∧ (readFront state size late).2 = next ∧
      copied (readFront state size late).1 = state.unread.take count ∧ next.Sound ∧
      next.unread = state.unread.drop count ∧ next.bytes = state.bytes - count ∧ next.closed = state.closed ∧
      next.unannounced = state.unannounced ∧ next.dropped = state.dropped := by
  unfold readFront
  cases chunks : state.chunks with
  | nil =>
    refine ⟨0, state, Nat.zero_le _, ?_, ?_, sound, rfl, rfl, rfl, rfl, rfl⟩
    · simp only
      split
      · rfl
      · split <;> rfl
    · simp only
      split
      · rfl
      · split <;> rfl
  | cons front rest =>
    have enough := read_front sound chunks size
    have inside := sound.inside front rest chunks
    have limit : taken state front size ≤ front.length - state.frontRead := Nat.min_le_left _ _
    refine ⟨taken state front size, _, enough.1, rfl, ?_, ?_⟩
    · simp only
      split
      · exact enough.2
      · exact enough.2
    · simp only
      split
      · next finished =>
        obtain ⟨left, unread⟩ := read_finished sound chunks finished
        exact ⟨left, unread, rfl, rfl, rfl, rfl⟩
      · next unfinished =>
        have below : state.frontRead + taken state front size < front.length := by omega
        obtain ⟨left, unread⟩ := read_unfinished sound chunks below
        rw [chunks] at left unread
        exact ⟨left, unread, rfl, rfl, rfl, rfl⟩

theorem Streams.readUntil {history : History} {pieces : List Piece} (streams : Streams history pieces) (capacity size : Nat)
    (late : Bool) : ∃ pieces', Streams (history.call capacity (.readUntil size late)) pieces' := by
  simp only [History.call, Ssh.readUntil]
  split
  · exact ⟨pieces, by simpa [copied] using streams⟩
  · obtain ⟨pieces, streams⟩ := streams.caughtUp
    obtain ⟨count, next, _, state, bytes, sound, rest, _, closed, unannounced, dropped⟩ :=
      readFront_eq streams.sound size late
    rw [state, bytes]
    refine ⟨pieces,
      { sound
        stream := ?_
        gaps := by simpa only [unannounced] using streams.gaps
        positive := streams.positive
        begins := streams.begins
        untouched := by simpa only [unannounced] using streams.untouched
        settled := by simpa only [unannounced, closed] using streams.settled
        known := by simpa only [unannounced, dropped] using streams.known }⟩
    simp only [rest, List.append_assoc, List.take_append_drop]
    exact streams.stream

theorem Streams.call {history : History} {pieces : List Piece} (streams : Streams history pieces) (capacity : Nat)
    (call : Call) : ∃ pieces', Streams (history.call capacity call) pieces' := by
  cases call with
  | push chunk => exact streams.push capacity chunk
  | close => exact streams.close capacity
  | readUntil size late => exact streams.readUntil capacity size late

theorem run_streams (capacity : Nat) (calls : List Call) : ∃ pieces, Streams (History.run capacity calls) pieces := by
  unfold History.run
  induction calls using List.reverseRecOn with
  | nil => exact ⟨[], Streams.start⟩
  | append_singleton calls call ih =>
    obtain ⟨pieces, streams⟩ := ih
    rw [List.foldl_append]
    exact streams.call capacity call

/-! ## The counts of dropped bytes -/

/-- The bytes that were dropped for lack of room. -/
def gapBytes (sent : List Piece) : Nat := (sent.map fun | .chunk _ => 0 | .gap count => count).sum

theorem gapBytes_append (first second : List Piece) : gapBytes (first ++ second) = gapBytes first + gapBytes second := by
  simp [gapBytes]

theorem announceGap_eq (state : QueueState) : (announceGap state).closed = state.closed ∧
    (announceGap state).dropped = state.dropped ∧
    (announceGap state).bytes =
      state.bytes + if 0 < state.unannounced then (notice state.unannounced).length else 0 := by
  unfold announceGap
  split
  · exact ⟨append_closed _ _, append_dropped _ _, append_bytes _ _⟩
  · exact ⟨rfl, rfl, rfl⟩

theorem call_dropped (capacity : Nat) {history : History} (sound : (caughtUp history.state).Sound) (call : Call)
    (counted : history.state.dropped = gapBytes history.sent) :
    (history.call capacity call).state.dropped = gapBytes (history.call capacity call).sent := by
  cases call with
  | push chunk =>
    simp only [History.call, push, gapBytes_append, sentBy, ← counted]
    by_cases closed : history.state.closed = true
    · simp [closed, gapBytes]
    · by_cases empty : chunk = []
      · simp [closed, empty, gapBytes]
      · have some_ : chunk.isEmpty = false := by simpa using empty
        simp only [closed, some_, Bool.false_eq_true, if_false, Bool.false_or]
        split
        · simp [gapBytes]
        · simp [gapBytes, append_dropped, announceGap_eq]
  | close =>
    simp only [History.call, close]
    split
    · exact counted
    · exact (announceGap_eq _).2.1.trans counted
  | readUntil size late =>
    simp only [History.call, readUntil]
    split
    · exact counted
    · obtain ⟨_, next, _, state, _, _, _, _, _, _, dropped⟩ := readFront_eq sound size late
      have kept : (caughtUp history.state).dropped = history.state.dropped := by
        unfold caughtUp
        split
        · exact (announceGap_eq _).2.1
        · rfl
      rw [state, dropped, kept, counted]

/-- The counts are those of the source until 2^64 bytes were dropped. -/
theorem counts_fit (capacity : Nat) (calls : List Call) (few : gapBytes (History.run capacity calls).sent < 2 ^ 64) :
    (History.run capacity calls).state.dropped < 2 ^ 64 ∧ (History.run capacity calls).state.unannounced < 2 ^ 64 := by
  have counted : (History.run capacity calls).state.dropped = gapBytes (History.run capacity calls).sent := by
    clear few
    unfold History.run
    induction calls using List.reverseRecOn with
    | nil => rfl
    | append_singleton calls call ih =>
      obtain ⟨_, streams⟩ := run_streams capacity calls
      obtain ⟨_, caught⟩ := streams.caughtUp
      rw [List.foldl_append]
      exact call_dropped capacity caught.sound call ih
  obtain ⟨_, streams⟩ := run_streams capacity calls
  exact ⟨counted ▸ few, Nat.lt_of_le_of_lt streams.known (counted ▸ few)⟩

/-! ## The size of the queue -/

/-- The chunks that a call pushes fit. -/
def Call.Fits (capacity : Nat) : Call → Prop
  | .push chunk => chunk.length ≤ capacity
  | _ => True

/-- The capacity and one notice, and another notice once the queue is closed.  The notices are about bytes
that were dropped. -/
structure Bounded (capacity : Nat) (state : QueueState) : Prop where
  open_ : state.closed = false → ∃ count ≤ state.dropped, state.bytes ≤ capacity + (notice count).length
  closed : state.closed = true → ∃ first ≤ state.dropped, ∃ second ≤ state.dropped,
    state.bytes ≤ capacity + (notice first).length + (notice second).length

theorem announceGap_bytes_le (state : QueueState) :
    (announceGap state).bytes ≤ state.bytes + (notice state.unannounced).length := by
  rw [(announceGap_eq state).2.2]
  split <;> omega

theorem Bounded.shrink {capacity : Nat} {state next : QueueState} (bounded : Bounded capacity state)
    (closed : next.closed = state.closed) (dropped : state.dropped ≤ next.dropped) (bytes : next.bytes ≤ state.bytes) :
    Bounded capacity next := by
  refine ⟨fun isOpen => ?_, fun isClosed => ?_⟩
  · obtain ⟨count, known, bound⟩ := bounded.open_ (closed ▸ isOpen)
    exact ⟨count, known.trans dropped, bytes.trans bound⟩
  · obtain ⟨first, known, second, known', bound⟩ := bounded.closed (closed ▸ isClosed)
    exact ⟨first, known.trans dropped, second, known'.trans dropped, bytes.trans bound⟩

theorem Bounded.call {capacity : Nat} {history : History} {pieces : List Piece} (bounded : Bounded capacity history.state)
    (streams : Streams history pieces) {call : Call} (fits : call.Fits capacity) :
    Bounded capacity (history.call capacity call).state := by
  have known := streams.known
  obtain ⟨sameClosed, sameDropped, _⟩ := announceGap_eq history.state
  have grown := announceGap_bytes_le history.state
  cases call with
  | push chunk =>
    simp only [History.call, push]
    split
    · exact bounded
    · next isOpen =>
      split
      · exact bounded
      · split
        · -- too large for the room that is left: the chunk is counted as a gap
          exact bounded.shrink rfl (Nat.le_add_right _ _) (Nat.le_refl _)
        · next room =>
          have still : (append (announceGap history.state) chunk).closed = false := by
            rw [append_closed, sameClosed]
            simpa using isOpen
          refine ⟨fun _ => ⟨history.state.unannounced, ?_, ?_⟩, fun isClosed => ?_⟩
          · rw [append_dropped, sameDropped]
            exact known
          · have size : chunk.length ≤ capacity := fits
            rw [append_bytes]
            omega
          · rw [still] at isClosed
            cases isClosed
  | close =>
    simp only [History.call, close]
    split
    · exact bounded
    · next isOpen =>
      obtain ⟨count, below, bound⟩ := bounded.open_ (by simpa using isOpen)
      refine ⟨fun isOpen => by simp at isOpen, fun _ => ⟨count, ?_, history.state.unannounced, ?_, ?_⟩⟩
      · simpa only [sameDropped] using below
      · simpa only [sameDropped] using known
      · simp only
        omega
  | readUntil size late =>
    simp only [History.call, readUntil]
    split
    · exact bounded
    · -- an emptied queue announces its gap before it waits
      have caught : Bounded capacity (caughtUp history.state) := by
        unfold caughtUp
        split
        · next empty =>
          have counted := streams.sound.counted
          rw [streams.sound.unread_eq_nil.mpr (List.isEmpty_iff.mp empty), List.length_nil] at counted
          refine ⟨fun _ => ⟨history.state.unannounced, by rw [sameDropped]; exact known, by omega⟩, fun isClosed => ?_⟩
          have nothing := streams.settled (sameClosed ▸ isClosed)
          rw [announceGap, if_neg (by omega)]
          exact ⟨0, Nat.zero_le _, 0, Nat.zero_le _, by omega⟩
        · exact bounded
      obtain ⟨_, streams⟩ := streams.caughtUp
      obtain ⟨count, next, _, state, _, _, _, bytes, closed, _, dropped⟩ := readFront_eq streams.sound size late
      rw [state]
      exact caught.shrink closed (Nat.le_of_eq dropped.symm) (by rw [bytes]; exact Nat.sub_le _ _)

theorem run_bounded (capacity : Nat) (calls : List Call) (fits : ∀ call ∈ calls, call.Fits capacity) :
    Bounded capacity (History.run capacity calls).state := by
  unfold History.run
  induction calls using List.reverseRecOn with
  | nil => exact ⟨fun _ => ⟨0, Nat.le_refl 0, Nat.zero_le _⟩, fun isClosed => by cases isClosed⟩
  | append_singleton calls call ih =>
    obtain ⟨_, streams⟩ := run_streams capacity calls
    rw [List.foldl_append]
    exact (ih fun other member => fits other (by simp [member])).call streams (fits call (by simp))

/-- In any history the reads return the kept chunks in order, the notices between two of them count what was
dropped there, the byte counter is what is queued, and the queue stays within its size. -/
theorem queue_keeps_the_stream (capacity : Nat) (calls : List Call) :
    let history := History.run capacity calls
    (∃ pieces, history.received ++ history.state.unread = pieces.flatMap Piece.shown ∧
      tally history.sent = ((tally pieces).1, (tally pieces).2 + history.state.unannounced) ∧
      (∀ count, .gap count ∈ pieces → 0 < count) ∧ (∀ count, pieces.head? ≠ some (.gap count)) ∧
      (history.state.closed = true → history.state.unread = [] →
        history.received = pieces.flatMap Piece.shown ∧ tally history.sent = tally pieces)) ∧
    history.state.bytes = history.state.unread.length ∧
    (∀ front rest size, (caughtUp history.state).chunks = front :: rest →
      taken (caughtUp history.state) front size ≤ (caughtUp history.state).bytes) ∧
    ((∀ call ∈ calls, call.Fits capacity) → Bounded capacity history.state) := by
  intro history
  obtain ⟨pieces, streams⟩ := run_streams capacity calls
  obtain ⟨_, caught⟩ := streams.caughtUp
  refine ⟨⟨pieces, streams.stream, streams.gaps, streams.positive, streams.begins, fun closed drained => ⟨?_, ?_⟩⟩,
    streams.sound.counted, fun front rest size chunks => (read_front caught.sound chunks size).1,
    run_bounded capacity calls⟩
  · have stream := streams.stream
    rw [show (History.run capacity calls).state.unread = [] from drained, List.append_nil] at stream
    exact stream
  · have gaps := streams.gaps
    rw [streams.settled closed] at gaps
    exact gaps

end Sshelter.Ssh
