import Mathlib

/-! # Logs in which every entry was allowed

A log keeps its latest entry first.  `Always` says of every entry that it was allowed by what the log
held before it; a run keeps it by checking the entries it adds.
-/

namespace Sshelter.Trace

variable {α : Type} {allowed : List α → α → Prop} {log before : List α} {event : α}

/-- Every entry of the log was allowed by the entries before it. -/
def Always (allowed : List α → α → Prop) : List α → Prop
  | [] => True
  | event :: before => allowed before event ∧ Always allowed before

@[simp] theorem always_nil : Always allowed [] := trivial

@[simp] theorem always_cons : Always allowed (event :: before) ↔ allowed before event ∧ Always allowed before := .rfl

theorem Always.suffix (kept : Always allowed log) (earlier : before <:+ log) : Always allowed before := by
  induction log with
  | nil =>
    rw [List.suffix_nil] at earlier
    rw [earlier]
    trivial
  | cons event rest ih =>
    obtain rfl | inside := List.suffix_cons_iff.mp earlier
    · exact kept
    · exact ih kept.2 inside

/-- Whatever came after an entry, it was allowed by what came before it. -/
theorem Always.at {after : List α} (kept : Always allowed (after ++ event :: before)) : allowed before event :=
  (kept.suffix (List.suffix_append after (event :: before))).1

theorem Always.of_mem (kept : Always allowed log) (member : event ∈ log) :
    ∃ before, event :: before <:+ log ∧ allowed before event := by
  obtain ⟨after, before, rfl⟩ := List.append_of_mem member
  exact ⟨before, List.suffix_append _ _, kept.at⟩

/-! ## Logs that keep their latest entry last -/

/-- Every entry of a log that grows at its end was allowed by the entries before it. -/
def Grown (allowed : List α → α → Prop) (log : List α) : Prop :=
  Always (fun before => allowed before.reverse) log.reverse

@[simp] theorem grown_nil : Grown allowed [] := trivial

@[simp] theorem grown_concat : Grown allowed (log ++ [event]) ↔ allowed log event ∧ Grown allowed log := by
  simp [Grown]

theorem Grown.at {after : List α} (kept : Grown allowed (before ++ event :: after)) : allowed before event := by
  have entry : Always (fun before => allowed before.reverse) (after.reverse ++ event :: before.reverse) := by
    simpa [Grown] using kept
  simpa using entry.at

end Sshelter.Trace
