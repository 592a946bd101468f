import Mathlib.Order.Basic
import Sshelter.Relay.IpLimiter

/-! # A limiter that deletes its record

The windows of one source address start at different times and share an alarm, which is moved
only when a window starts.  It is never before the end of a window, so the limiter answers like
one that never deletes its record.
-/

namespace Sshelter.Relay

/-! ## The invariant -/

/-- The window is over. -/
def Over (now : Nat) (window : IpWindow) : Prop := window.start + IP_WINDOW_MS ≤ now

theorem Over.mono {now later : Nat} {window : IpWindow} (past : Over now window) (passes : now ≤ later) :
    Over later window := past.trans passes

theorem renewed_of_over {now : Nat} {window : IpWindow} (past : Over now window) :
    renewed now window = { start := now, count := 0 } := by
  unfold Over at past
  rw [renewed, if_pos (by omega)]

theorem renewed_start_le {now : Nat} {window : IpWindow} (past : window.start ≤ now) :
    (renewed now window).start ≤ now := by
  unfold renewed
  split
  · exact Nat.le_refl now
  · exact past

/-- Every bucket counts the same in both, or is over in both. -/
def Agree (now : Nat) (deleted kept : Bucket → IpWindow) : Prop :=
  ∀ bucket, deleted bucket = kept bucket ∨ (Over now (deleted bucket) ∧ Over now (kept bucket))

theorem Agree.mono {now later : Nat} {deleted kept : Bucket → IpWindow} (agree : Agree now deleted kept)
    (passes : now ≤ later) : Agree later deleted kept := fun bucket =>
  (agree bucket).imp id fun past => ⟨past.1.mono passes, past.2.mono passes⟩

theorem Agree.renewed_eq {now : Nat} {deleted kept : Bucket → IpWindow} (agree : Agree now deleted kept)
    (bucket : Bucket) : renewed now (deleted bucket) = renewed now (kept bucket) := by
  rcases agree bucket with same | ⟨overDeleted, overKept⟩
  · rw [same]
  · rw [renewed_of_over overDeleted, renewed_of_over overKept]

theorem Agree.expired_iff {now : Nat} {deleted kept : Bucket → IpWindow} (agree : Agree now deleted kept)
    (bucket : Bucket) :
    IP_WINDOW_MS ≤ now - (deleted bucket).start ↔ IP_WINDOW_MS ≤ now - (kept bucket).start := by
  rcases agree bucket with same | ⟨overDeleted, overKept⟩
  · rw [same]
  · unfold Over at overDeleted overKept
    omega

/-- One charge answers the same in both, and they still agree. -/
theorem charge_agree {now : Nat} {a b : Charging} (agree : Agree now a.windows b.windows)
    (started : a.started = b.started) (allowed : a.allowed = b.allowed) (item : Bucket × Int) :
    Agree now (charge now a item).windows (charge now b item).windows ∧
      (charge now a item).started = (charge now b item).started ∧
      (charge now a item).allowed = (charge now b item).allowed := by
  obtain ⟨bucket, cost⟩ := item
  simp only [charge, agree.renewed_eq bucket, agree.expired_iff bucket, started, allowed, and_self, and_true]
  intro other
  by_cases here : other = bucket
  · subst here
    exact .inl (by simp)
  · simp only [Function.update_of_ne here]
    exact agree other

theorem charges_agree {now : Nat} (charges : List (Bucket × Int)) {a b : Charging}
    (agree : Agree now a.windows b.windows) (started : a.started = b.started) (allowed : a.allowed = b.allowed) :
    Agree now (charges.foldl (charge now) a).windows (charges.foldl (charge now) b).windows ∧
      (charges.foldl (charge now) a).started = (charges.foldl (charge now) b).started ∧
      (charges.foldl (charge now) a).allowed = (charges.foldl (charge now) b).allowed := by
  induction charges generalizing a b with
  | nil => exact ⟨agree, started, allowed⟩
  | cons item rest ih =>
    obtain ⟨agree, started, allowed⟩ := charge_agree agree started allowed item
    exact ih agree started allowed

/-- After the loop a window started by now, and one that moved was reported. -/
theorem charges_starts {now : Nat} (charges : List (Bucket × Int)) {state : Charging}
    (past : ∀ bucket, (state.windows bucket).start ≤ now) :
    (∀ bucket, ((charges.foldl (charge now) state).windows bucket).start ≤ now) ∧
      ((charges.foldl (charge now) state).started = false → ∀ bucket,
        ((charges.foldl (charge now) state).windows bucket).start = (state.windows bucket).start) := by
  induction charges generalizing state with
  | nil => exact ⟨past, fun _ _ => rfl⟩
  | cons item rest ih =>
    obtain ⟨bucket, cost⟩ := item
    have stays (other : Bucket) (elsewhere : other ≠ bucket) :
        (charge now state (bucket, cost)).windows other = state.windows other := by
      simp [charge, Function.update_of_ne elsewhere]
    have moves : ((charge now state (bucket, cost)).windows bucket).start =
        (renewed now (state.windows bucket)).start := by simp [charge]
    have still : ∀ other, ((charge now state (bucket, cost)).windows other).start ≤ now := by
      intro other
      by_cases here : other = bucket
      · rw [here, moves]
        exact renewed_start_le (past bucket)
      · rw [stays other here]
        exact past other
    obtain ⟨later, unmoved⟩ := ih still
    refine ⟨later, fun quiet other => ?_⟩
    rw [List.foldl_cons, unmoved quiet other]
    by_cases here : other = bucket
    · -- a window that had moved would have been reported by the whole loop
      have kept : ∀ (items : List (Bucket × Int)) (state : Charging),
          (items.foldl (charge now) state).started = false → state.started = false := by
        intro items
        induction items with
        | nil => exact fun _ quiet => quiet
        | cons item rest ih =>
          intro state quiet
          have before := ih _ quiet
          simp only [charge, Bool.or_eq_false_iff] at before
          exact before.1
      have first := kept rest _ quiet
      simp only [charge, Bool.or_eq_false_iff, decide_eq_false_iff_not] at first
      rw [here, moves, renewed, if_neg first.2]
    · rw [stays other here]

/-- The two limiters after the same events: no window is live past the alarm. -/
structure Paired (deleting keeping : IpWorld) : Prop where
  now : deleting.now = keeping.now
  agree : Agree deleting.now deleting.storage.read keeping.storage.read
  past : ∀ bucket, (deleting.storage.read bucket).start ≤ deleting.now
  alarm : ∀ time, deleting.storage.alarm = some time → deleting.lastSet = some time
  beforeAlarm : ∀ time, deleting.lastSet = some time → ∀ bucket, Over time (deleting.storage.read bucket)
  answers : deleting.answers = keeping.answers

theorem Paired.start : Paired .start .start where
  now := rfl
  agree := fun _ => .inl rfl
  past := fun _ => Nat.le_refl 0
  alarm := fun time set => by cases set
  beforeAlarm := fun time set => by cases set
  answers := rfl

/-- The loop on a stored record. -/
def charged (now : Nat) (charges : List (Bucket × Int)) (storage : IpStorage) : Charging :=
  charges.foldl (charge now) { windows := storage.read, started := false, allowed := true }

theorem Paired.call {deleting keeping : IpWorld} (paired : Paired deleting keeping) {now : Nat}
    (passes : deleting.now ≤ now) (charges : List (Bucket × Int)) :
    Paired (deleting.call now charges) (keeping.call now charges) := by
  have past bucket := (paired.past bucket).trans passes
  obtain ⟨agree, _, allowed⟩ : Agree now (charged now charges deleting.storage).windows
      (charged now charges keeping.storage).windows ∧ _ ∧
        (charged now charges deleting.storage).allowed = (charged now charges keeping.storage).allowed :=
    charges_agree charges (paired.agree.mono passes) rfl rfl
  have starts : (∀ bucket, ((charged now charges deleting.storage).windows bucket).start ≤ now) ∧
      ((charged now charges deleting.storage).started = false → ∀ bucket,
        ((charged now charges deleting.storage).windows bucket).start = (deleting.storage.read bucket).start) :=
    charges_starts charges past
  have alarm : (deleting.call now charges).storage.alarm =
      if (charged now charges deleting.storage).started then some (now + IP_WINDOW_MS) else deleting.storage.alarm := rfl
  have lastSet : (deleting.call now charges).lastSet =
      (deleting.call now charges).storage.alarm.or deleting.lastSet := rfl
  refine
    { now := rfl
      agree
      past := starts.1
      alarm := fun time set => by rw [lastSet, set, Option.some_or]
      beforeAlarm := fun time set bucket => ?_
      answers := ?_ }
  · -- an alarm was set now for the window that started, or stands from an earlier one
    show ((charged now charges deleting.storage).windows bucket).start + IP_WINDOW_MS ≤ time
    rw [lastSet, alarm] at set
    cases moved : (charged now charges deleting.storage).started with
    | true =>
      rw [moved, if_pos rfl, Option.some_or] at set
      cases set
      exact Nat.add_le_add_right (starts.1 bucket) _
    | false =>
      rw [moved, if_neg Bool.false_ne_true] at set
      have before : deleting.lastSet = some time := by
        cases stored : deleting.storage.alarm with
        | none => rwa [stored, Option.none_or] at set
        | some other =>
          rw [stored, Option.some_or] at set
          rw [paired.alarm other stored, set]
      rw [starts.2 moved bucket]
      exact paired.beforeAlarm time before bucket
  · show deleting.answers ++ [(charged now charges deleting.storage).allowed] =
      keeping.answers ++ [(charged now charges keeping.storage).allowed]
    rw [paired.answers, allowed]

/-- An alarm finds no window in progress. -/
theorem Paired.alarm_finds_over {deleting keeping : IpWorld} (paired : Paired deleting keeping) {now time : Nat}
    (set : deleting.lastSet = some time) (due : time ≤ now) (bucket : Bucket) :
    Over now (deleting.storage.read bucket) := (paired.beforeAlarm time set bucket).mono due

theorem Paired.alarm_step {deleting keeping : IpWorld} (paired : Paired deleting keeping) {now time : Nat}
    (passes : deleting.now ≤ now) (set : deleting.lastSet = some time) (due : time ≤ now) :
    Paired (deleting.step (.alarm now)) (keeping.keep (.alarm now)) := by
  have past := paired.alarm_finds_over set due
  have emptied (later : Nat) (reached : time ≤ later) : Over later { start := 0, count := 0 } := by
    have first := (paired.beforeAlarm time set .create).mono reached
    unfold Over at first
    show 0 + IP_WINDOW_MS ≤ later
    omega
  refine
    { now := rfl
      agree := fun bucket => .inr ⟨emptied now due, ?_⟩
      past := fun _ => Nat.zero_le now
      alarm := fun _ none_ => by cases none_
      beforeAlarm := fun later set' bucket => ?_
      answers := paired.answers }
  · rcases paired.agree.mono passes bucket with same | both
    · show Over now (keeping.storage.read bucket)
      rw [← same]
      exact past bucket
    · exact both.2
  · have same : deleting.lastSet = some later := set'
    rw [set] at same
    cases same
    exact emptied time (Nat.le_refl time)

theorem Paired.run {deleting keeping : IpWorld} (paired : Paired deleting keeping) (events : List IpEvent)
    (timely : deleting.Timely events) :
    Paired (events.foldl IpWorld.step deleting) (events.foldl IpWorld.keep keeping) := by
  induction events generalizing deleting keeping with
  | nil => exact paired
  | cons event rest ih =>
    obtain ⟨passes, due, later⟩ := timely
    cases event with
    | call now charges => exact ih (paired.call passes charges) later
    | alarm now =>
      obtain ⟨time, set, reached⟩ := due now rfl
      exact ih (paired.alarm_step passes set reached) later

theorem IpWorld.Timely.split {world : IpWorld} {before after : List IpEvent} (timely : world.Timely (before ++ after)) :
    world.Timely before ∧ (before.foldl IpWorld.step world).Timely after := by
  induction before generalizing world with
  | nil => exact ⟨trivial, timely⟩
  | cons event rest ih =>
    obtain ⟨passes, due, later⟩ := timely
    exact ⟨⟨passes, due, (ih later).1⟩, (ih later).2⟩

/-- Deleting the record when the alarm fires changes no answer, and never clears a window in progress. -/
theorem limiter_forgets_nothing (events : List IpEvent) (timely : IpWorld.start.Timely events) :
    (events.foldl IpWorld.step .start).answers = (events.foldl IpWorld.keep .start).answers ∧
      ∀ before now after, events = before ++ .alarm now :: after → ∀ bucket window,
        (before.foldl IpWorld.step .start).storage.windows bucket = some window →
          window.start + IP_WINDOW_MS ≤ now := by
  refine ⟨(Paired.start.run events timely).answers, fun before now after same bucket window stored => ?_⟩
  rw [same] at timely
  obtain ⟨timelyBefore, _, due, _⟩ := timely.split
  obtain ⟨time, set, reached⟩ := due now rfl
  have past := (Paired.start.run before timelyBefore).alarm_finds_over set reached bucket
  rw [IpStorage.read, stored] at past
  exact past

/-- Two buckets whose windows start an hour apart but for a moment, and an alarm that is late. -/
def sampleEvents : List IpEvent :=
  [.call 4000000 [(.request, 1), (.create, 20)], .call 7599999 [(.pull, 12000)],
    .alarm 11200000, .call 11200001 [(.create, 1), (.pull, 12001)]]

theorem sample_forgets_nothing :
    IpWorld.start.Timely sampleEvents ∧
      (sampleEvents.foldl IpWorld.step .start).answers = (sampleEvents.foldl IpWorld.keep .start).answers := by
  have timely : IpWorld.start.Timely sampleEvents := by
    refine ⟨by decide, by simp, by decide, by simp, by decide, ?_, by decide, by simp, trivial⟩
    intro now same
    cases same
    exact ⟨11199999, by decide, by decide⟩
  exact ⟨timely, (limiter_forgets_nothing sampleEvents timely).1⟩

end Sshelter.Relay
