import Sshelter.Lib.Wire

/-! # The queue between a connection and a terminal

`ssh/channel.rs`: a byte queue with a size limit.  The producer never waits: a chunk that does
not fit is discarded and counted, and the stream says how many bytes are missing.  Every call
holds the lock from start to end; a reader that waits has changed nothing and starts its loop
again, so a blocked call is a sequence of attempts.  The two counts of dropped bytes have 64 bits
in the source: they are the numbers here while fewer than 2^64 bytes are dropped.
-/

namespace Sshelter.Ssh

open Wire (Bytes textBytes)

/-- Chunks are merged into the last queued one while it stays within this many bytes. -/
def MERGE_LIMIT : Nat := 16 * 1024

structure QueueState where
  chunks : List Bytes
  /-- How much of the first chunk has been read already. -/
  frontRead : Nat
  /-- Bytes queued and not read yet. -/
  bytes : Nat
  closed : Bool
  dropped : Nat
  /-- Dropped bytes the stream does not mention yet. -/
  unannounced : Nat
deriving DecidableEq, Repr

def QueueState.new : QueueState :=
  { chunks := [], frontRead := 0, bytes := 0, closed := false, dropped := 0, unannounced := 0 }

def notice (bytes : Nat) : Bytes :=
  textBytes ("\r\n[Lunport dropped " ++ toString bytes ++
    " bytes of output because the terminal fell behind]\r\n")

/-- Queues a chunk after the others. -/
def append (state : QueueState) (chunk : Bytes) : QueueState :=
  let bytes := state.bytes + chunk.length
  match state.chunks.getLast? with
  | some back =>
    if back.length + chunk.length ≤ MERGE_LIMIT then
      { state with bytes, chunks := state.chunks.dropLast ++ [back ++ chunk] }
    else { state with bytes, chunks := state.chunks ++ [chunk] }
  | none => { state with bytes, chunks := state.chunks ++ [chunk] }

/-- Announces a gap that the stream has not mentioned yet. -/
def announceGap (state : QueueState) : QueueState :=
  if 0 < state.unannounced then append { state with unannounced := 0 } (notice state.unannounced)
  else state

/-- `push`: whether the chunk was kept, and the queue afterwards. -/
def push (capacity : Nat) (state : QueueState) (chunk : Bytes) : Bool × QueueState :=
  if state.closed then (false, state)
  else if chunk.isEmpty then (true, state)
  else if state.bytes ≠ 0 ∧ capacity < state.bytes + chunk.length then
    (false,
      { state with
        dropped := state.dropped + chunk.length, unannounced := state.unannounced + chunk.length })
  else (true, append (announceGap state) chunk)

def close (state : QueueState) : QueueState :=
  if state.closed then state else { announceGap state with closed := true }

/-- What one read of the queue produced. -/
inductive QueueRead where
  /-- These bytes were copied into the caller's buffer. -/
  | Bytes (copied : Bytes)
  | Timeout
  | Closed
deriving DecidableEq, Repr

/-- How much a read takes off the first chunk. -/
def taken (state : QueueState) (front : Bytes) (size : Nat) : Nat := min (front.length - state.frontRead) size

/-- A reader that has read everything else is told of a gap now, not with the next output. -/
def caughtUp (state : QueueState) : QueueState := if state.chunks.isEmpty then announceGap state else state

/-- What a read takes, `late` when its deadline has passed.  Without a result the caller waits. -/
def readFront (state : QueueState) (size : Nat) (late : Bool) : Option QueueRead × QueueState :=
  match state.chunks with
  | front :: rest =>
    let count := taken state front size
    let copied := (front.drop state.frontRead).take count
    let bytes := state.bytes - count
    if state.frontRead + count = front.length then
      (some (.Bytes copied), { state with bytes, chunks := rest, frontRead := 0 })
    else (some (.Bytes copied), { state with bytes, frontRead := state.frontRead + count })
  | [] =>
    if state.closed then (some .Closed, state)
    else if late then (some .Timeout, state)
    else (none, state)

/-- One turn of `read_until`'s loop with a buffer of the given size. -/
def readUntil (state : QueueState) (size : Nat) (late : Bool) : Option QueueRead × QueueState :=
  if size = 0 then (some (.Bytes []), state) else readFront (caughtUp state) size late

end Sshelter.Ssh
