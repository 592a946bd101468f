import Mathlib.Data.Int.Basic
import Mathlib.Logic.Function.Basic

/-! # Limits by source address

`IpLimiter` of `relay/src/index.ts`: three counters over windows of an hour in one stored
record, which an alarm deletes once the last window is over.
-/

namespace Sshelter.Relay

inductive Bucket where
  | create | request | pull
deriving DecidableEq, Repr

def IP_LIMITS : Bucket → Int
  | .create => 20
  | .request => 1200
  | .pull => 12000

def IP_WINDOW_MS : Nat := 60 * 60 * 1000

structure IpWindow where
  start : Nat
  count : Int
deriving DecidableEq, Repr

/-- What one source address has stored: a record may lack a bucket, and there may be none. -/
structure IpStorage where
  windows : Bucket → Option IpWindow
  alarm : Option Nat

def IpStorage.empty : IpStorage := { windows := fun _ => none, alarm := none }

/-- A bucket that is not stored counts as an old window. -/
def IpStorage.read (storage : IpStorage) (bucket : Bucket) : IpWindow :=
  (storage.windows bucket).getD { start := 0, count := 0 }

/-- The state of `allowMany`'s loop. -/
structure Charging where
  windows : Bucket → IpWindow
  started : Bool
  allowed : Bool

/-- The window counts from now on when it is over. -/
def renewed (now : Nat) (window : IpWindow) : IpWindow :=
  if IP_WINDOW_MS ≤ now - window.start then { start := now, count := 0 } else window

def charge (now : Nat) (state : Charging) (item : Bucket × Int) : Charging :=
  let (bucket, cost) := item
  let window := renewed now (state.windows bucket)
  let count := window.count + cost
  { windows := Function.update state.windows bucket { window with count }
    started := state.started || decide (IP_WINDOW_MS ≤ now - (state.windows bucket).start)
    allowed := state.allowed && decide (count ≤ IP_LIMITS bucket) }

def allowMany (now : Nat) (charges : List (Bucket × Int)) (storage : IpStorage) : Bool × IpStorage :=
  let state := charges.foldl (charge now) { windows := storage.read, started := false, allowed := true }
  (state.allowed,
    { windows := fun bucket => some (state.windows bucket)
      alarm := if state.started then some (now + IP_WINDOW_MS) else storage.alarm })

/-- `allow`: one bucket. -/
def allow (now : Nat) (bucket : Bucket) (cost : Int) (storage : IpStorage) : Bool × IpStorage :=
  allowMany now [(bucket, cost)] storage

/-- `alarm`: everything is deleted, the alarm included. -/
def ipAlarm (_ : IpStorage) : IpStorage := .empty

/-! ## Runs -/

inductive IpEvent where
  | call (now : Nat) (charges : List (Bucket × Int))
  | alarm (now : Nat)
deriving DecidableEq, Repr

def IpEvent.now : IpEvent → Nat
  | .call now _ => now
  | .alarm now => now

/-- A limiter with the answers it has given and the time that its alarm was last set to. -/
structure IpWorld where
  storage : IpStorage
  now : Nat
  lastSet : Option Nat
  answers : List Bool

def IpWorld.start : IpWorld := { storage := .empty, now := 0, lastSet := none, answers := [] }

def IpWorld.call (world : IpWorld) (now : Nat) (charges : List (Bucket × Int)) : IpWorld :=
  let (allowed, storage) := allowMany now charges world.storage
  { storage, now, lastSet := storage.alarm.or world.lastSet, answers := world.answers ++ [allowed] }

def IpWorld.step (world : IpWorld) : IpEvent → IpWorld
  | .call now charges => world.call now charges
  | .alarm now => { world with storage := ipAlarm world.storage, now }

/-- A limiter that keeps its record. -/
def IpWorld.keep (world : IpWorld) : IpEvent → IpWorld
  | .call now charges => world.call now charges
  | .alarm now => { world with now }

/-- Time does not run backwards, and an alarm fires at some moment from the time last set on; it may be late
and may be run again. -/
def IpWorld.Timely (world : IpWorld) : List IpEvent → Prop
  | [] => True
  | event :: rest =>
    world.now ≤ event.now ∧
      (∀ now, event = .alarm now → ∃ time, world.lastSet = some time ∧ time ≤ now) ∧
      (world.step event).Timely rest

end Sshelter.Relay
