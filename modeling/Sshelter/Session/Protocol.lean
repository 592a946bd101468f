import Sshelter.Lib.Wire

/-! # Frames between the broker and its clients

`session/protocol.rs`: a frame is a length, a type byte and a payload.  A reader hands over the
bytes of the stream in pieces of its own choice, and a call of it may be interrupted or fail, so
reading loops until a part of the frame is complete.
-/

namespace Sshelter.Session

open Wire (Bytes word wordValue)

/-- A frame whose payload is one JSON message. -/
def CONTROL : UInt8 := 1

/-- A frame whose payload is raw bytes. -/
def DATA : UInt8 := 2

/-- The largest frame, type byte and payload together. -/
def MAX_FRAME : Nat := 1048576

inductive Frame where
  | Control (payload : Bytes)
  | Data (payload : Bytes)
deriving DecidableEq, Repr

inductive FrameError where
  | Io (message : String)
  | TooLarge (length : Nat)
  | UnknownType (kind : UInt8)
  /-- A length of 0: not even a type byte. -/
  | Empty
  /-- The stream ended inside a frame. -/
  | Truncated
deriving DecidableEq, Repr

/-! ## Readers -/

/-- What one call of `Read::read` does. -/
inductive ReadStep where
  /-- Hands over at most `size + 1` bytes. -/
  | chunk (size : Nat)
  | interrupted
  | failed (message : String)
deriving DecidableEq, Repr

/-- The bytes of a stream that are still to come, and how the next calls deliver them; after
these a call fills the buffer as far as there are bytes. -/
structure Reader where
  pending : Bytes
  steps : List ReadStep
deriving DecidableEq, Repr

inductive ReadResult where
  /-- Empty at the end of the stream. -/
  | bytes (got : Bytes)
  | interrupted
  | failed (message : String)

/-- `Read::read` with a buffer of `room` bytes. -/
def Reader.read (self : Reader) (room : Nat) : ReadResult × Reader :=
  match self.steps with
  | [] => (.bytes (self.pending.take room), { self with pending := self.pending.drop room })
  | .chunk size :: steps =>
    let count := min (size + 1) room
    (.bytes (self.pending.take count), { pending := self.pending.drop count, steps })
  | .interrupted :: steps => (.interrupted, { self with steps })
  | .failed message :: steps => (.failed message, { self with steps })

/-- What a call takes off the stream. -/
theorem Reader.read_bytes {self after : Reader} {room : Nat} {got : Bytes} (h : self.read room = (.bytes got, after)) :
    ∃ count, got = self.pending.take count ∧ after.pending = self.pending.drop count ∧ count ≤ room ∧
      (0 < room → 0 < count) ∧ after.steps <:+ self.steps := by
  unfold read at h
  split at h
  next none_ =>
    cases h
    exact ⟨room, rfl, rfl, Nat.le_refl _, id, List.suffix_refl _⟩
  next size steps more =>
    cases h
    rw [more]
    exact ⟨min (size + 1) room, rfl, rfl, Nat.min_le_right _ _, fun some_ => by omega, List.suffix_cons _ _⟩
  next => cases h
  next => cases h

theorem Reader.read_interrupted {self after : Reader} {room : Nat} (h : self.read room = (.interrupted, after)) :
    self.steps = .interrupted :: after.steps ∧ after.pending = self.pending := by
  unfold read at h
  split at h
  next => cases h
  next => cases h
  next steps more =>
    cases h
    exact ⟨more, rfl⟩
  next => cases h

theorem Reader.read_failed {self after : Reader} {room : Nat} {message : String}
    (h : self.read room = (.failed message, after)) : self.steps = .failed message :: after.steps := by
  unfold read at h
  split at h
  next => cases h
  next => cases h
  next => cases h
  next steps more =>
    cases h
    exact more

/-! ## Reading -/

/-- `read_full` on a buffer of `length` bytes that holds some already.  Nothing when the stream
ended before the first byte. -/
def readFull (length : Nat) (filled : Bytes) (reader : Reader) : Except FrameError (Option Bytes) × Reader :=
  if _ : filled.length < length then
    match _called : reader.read (length - filled.length) with
    | (.bytes [], after) => (if filled.isEmpty then .ok none else .error .Truncated, after)
    | (.bytes (first :: more), after) => readFull length (filled ++ first :: more) after
    | (.interrupted, after) => readFull length filled after
    | (.failed message, after) => (.error (.Io message), after)
  else (.ok (some filled), reader)
termination_by reader.steps.length + (length - filled.length)
decreasing_by
  · obtain ⟨_, _, _, _, _, fewer⟩ := Reader.read_bytes _called
    have := fewer.length_le
    simp only [List.length_append, List.length_cons]
    omega
  · rw [(Reader.read_interrupted _called).1, List.length_cons]
    omega

/-- `u32::from_be_bytes`. -/
def fromBeBytes : Bytes → Nat
  | [a, b, c, d] => wordValue a b c d
  | _ => 0

/-- The frame of a type byte and a payload. -/
def frameOf (kind : UInt8) (payload : Bytes) : Except FrameError Frame :=
  if kind = CONTROL then .ok (.Control payload)
  else if kind = DATA then .ok (.Data payload)
  else .error (.UnknownType kind)

/-- An empty payload is not read: the end of the stream would look like one inside the frame. -/
def readPayload (size : Nat) (reader : Reader) : Except FrameError (Option Bytes) × Reader :=
  if size = 0 then (.ok (some []), reader) else readFull size [] reader

/-- `read_frame` after the check of the length. -/
def readBody (length : Nat) (reader : Reader) : Except FrameError (Option Frame) × Reader :=
  match readFull 1 [] reader with
  | (.error e, reader) => (.error e, reader)
  | (.ok none, reader) => (.error .Truncated, reader)
  | (.ok (some kind), reader) =>
    match readPayload (length - 1) reader with
    | (.error e, reader) => (.error e, reader)
    | (.ok none, reader) => (.error .Truncated, reader)
    | (.ok (some payload), reader) => ((frameOf (kind.headD 0) payload).map some, reader)

/-- `read_frame`.  Nothing when the stream ended between two frames. -/
def readFrame (reader : Reader) : Except FrameError (Option Frame) × Reader :=
  match readFull 4 [] reader with
  | (.error e, reader) => (.error e, reader)
  | (.ok none, reader) => (.ok none, reader)
  | (.ok (some header), reader) =>
    if fromBeBytes header = 0 then (.error .Empty, reader)
    else if fromBeBytes header > MAX_FRAME then (.error (.TooLarge (fromBeBytes header)), reader)
    else readBody (fromBeBytes header) reader

/-! ## Writing -/

/-- `write_frame`: the bytes of its one `write_all`. -/
def writeFrame (kind : UInt8) (payload : Bytes) : Except String Bytes :=
  if payload.length + 1 > MAX_FRAME then
    .error ("a frame of " ++ toString (payload.length + 1) ++ " bytes is larger than the limit of " ++ toString MAX_FRAME)
  else .ok (word (payload.length + 1) ++ kind :: payload)

end Sshelter.Session
