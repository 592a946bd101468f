import Mathlib

/-! # Approval rules and remembered approvals

`agent/approval.rs`: whether a signing request has to be asked about, and the cache of
approvals that were given with "remember".  Pure rules: the caller supplies the time.
-/

namespace Sshelter.Agent

/-- This device's agent settings (the header of the vault file). -/
structure AgentSettings where
  rememberMinutes : Nat
  alwaysAsk : Bool
deriving DecidableEq, Repr

def defaultRememberMinutes : Nat := 240

/-- The times "remember" can be set to, in minutes. -/
def rememberChoicesMinutes : List Nat := [15, 60, 240, 720]

/-- The time set on this device; a value that is not among the choices counts as the default. -/
def rememberMinutes (settings : AgentSettings) : Nat :=
  if settings.rememberMinutes ∈ rememberChoicesMinutes then settings.rememberMinutes
  else defaultRememberMinutes

/-- What an approval is remembered for: key, host and requesting program. -/
structure ApprovalKey where
  keyFingerprint : String
  hostFingerprint : String
  program : String
deriving DecidableEq, Repr

/-- The protection of one key. -/
structure KeyProtection where
  askEveryTime : Bool := false
  requireUserPresence : Bool := false
deriving DecidableEq, Repr

inductive Verdict where
  /-- A remembered approval is still valid. -/
  | Remembered
  /-- The user is asked; the window may offer to remember. -/
  | Ask (rememberable : Bool)
deriving DecidableEq, Repr

/-- Whether this request has to be asked about.  The context is known when the connection has a
trusted host and the requesting program was recognised. -/
def verdict (protection : KeyProtection) (settings : AgentSettings) (contextKnown remembered : Bool) :
    Verdict :=
  if protection.askEveryTime || settings.alwaysAsk || !contextKnown then .Ask false
  else if remembered then .Remembered
  else .Ask true

/-! ## The cache -/

/-- The largest 64-bit time. -/
def maxMs : Nat := 2 ^ 64 - 1

/-- When something kept at `now` for so many minutes expires; the addition saturates. -/
def expiry (now minutes : Nat) : Nat := min (now + minutes * 60000) maxMs

/-- Remembered approvals with the time they expire at. -/
def ApprovalCache := ApprovalKey → Option Nat

namespace ApprovalCache

def empty : ApprovalCache := fun _ => none

/-- Drops what has expired; an approval has expired at its very expiry time. -/
def prune (self : ApprovalCache) (now : Nat) : ApprovalCache :=
  fun key => (self key).filter (now < ·)

/-- Whether an unexpired approval is there, dropping every expired one on the way. -/
def isRemembered (self : ApprovalCache) (key : ApprovalKey) (now : Nat) : Bool × ApprovalCache :=
  ((self.prune now key).isSome, self.prune now)

def remember (self : ApprovalCache) (key : ApprovalKey) (now minutes : Nat) : ApprovalCache :=
  fun other => if other = key then some (expiry now minutes) else self other

theorem prune_eq_some {self : ApprovalCache} {now : Nat} {key : ApprovalKey} {expires : Nat} :
    self.prune now key = some expires ↔ self key = some expires ∧ now < expires := by
  simp [prune, Option.filter_eq_some_iff]

theorem remember_eq_some {self : ApprovalCache} {key other : ApprovalKey} {now minutes expires : Nat}
    (h : self.remember key now minutes other = some expires) :
    (other = key ∧ expires = expiry now minutes) ∨ self other = some expires := by
  simp only [remember] at h
  split at h
  · cases h
    exact .inl ⟨‹_›, rfl⟩
  · exact .inr h

end ApprovalCache

theorem lt_of_lt_expiry {now stored minutes : Nat} (h : now < expiry stored minutes) :
    now < stored + minutes * 60000 :=
  Nat.lt_of_lt_of_le h (Nat.min_le_left _ _)

end Sshelter.Agent
