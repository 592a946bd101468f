import Mathlib

/-! # Calls that keep what they did

A method that changes its state and may fail: on an error the state stays as the method
left it.  `outcome` is what a call returns and the state it leaves; `bind_cases` takes a call
apart along its steps.  `Ensures` is the judgment for longer programs: from a condition on
the state to one on the value and the state after it, and one on the error and the state.
-/

namespace Sshelter

abbrev Call (ε σ α : Type) := ExceptT ε (StateM σ) α

namespace Call

variable {ε σ α β : Type}

/-- What the call returns, and the state it leaves. -/
def outcome (call : Call ε σ α) (state : σ) : Except ε α × σ := StateT.run (ExceptT.run call) state

/-- A result that does not touch the state. -/
def of (result : Except ε α) : Call ε σ α := ExceptT.mk (pure result)

/-- What the call returns, as a value. -/
def attempt {ε' : Type} (call : Call ε σ α) : Call ε' σ (Except ε α) :=
  ExceptT.mk fun state => ((.ok (outcome call state).1, (outcome call state).2) : Except ε' (Except ε α) × σ)

@[simp] theorem outcome_pure (a : α) (state : σ) : outcome (pure a : Call ε σ α) state = (.ok a, state) := rfl

@[simp] theorem outcome_of (result : Except ε α) (state : σ) : outcome (of result) state = (result, state) := rfl

@[simp] theorem outcome_attempt {ε' : Type} (call : Call ε σ α) (state : σ) :
    outcome (attempt call : Call ε' σ (Except ε α)) state = (.ok (outcome call state).1, (outcome call state).2) := rfl

@[simp] theorem outcome_throw (error : ε) (state : σ) :
    outcome (throw error : Call ε σ α) state = (.error error, state) := rfl

@[simp] theorem outcome_get (state : σ) : outcome (get : Call ε σ σ) state = (.ok state, state) := rfl

@[simp] theorem outcome_modify (change : σ → σ) (state : σ) :
    outcome (modify change : Call ε σ PUnit) state = (.ok ⟨⟩, change state) := rfl

theorem outcome_bind (call : Call ε σ α) (next : α → Call ε σ β) (state : σ) :
    outcome (call >>= next) state =
      match outcome call state with
      | (.ok a, state') => outcome (next a) state'
      | (.error error, state') => (.error error, state') := by
  show StateT.run (ExceptT.run (call >>= next)) state = _
  rw [ExceptT.run_bind, StateT.run_bind]
  show (match (outcome call state).1 with
    | .ok a => ExceptT.run (next a)
    | .error error => pure (.error error) : StateM σ (Except ε β)).run (outcome call state).2 = _
  obtain ⟨result, state'⟩ := outcome call state
  cases result <;> rfl

/-- A call in two steps ends where the first one fails, or as the second one does. -/
theorem bind_cases {call : Call ε σ α} {next : α → Call ε σ β} {state after : σ} {result : Except ε β}
    (ran : outcome (call >>= next) state = (result, after)) :
    (∃ error, outcome call state = (.error error, after) ∧ result = .error error) ∨
      ∃ a state', outcome call state = (.ok a, state') ∧ outcome (next a) state' = (result, after) := by
  rw [outcome_bind] at ran
  cases first : outcome call state with
  | mk result' state' =>
    rw [first] at ran
    cases result' with
    | error error =>
      cases ran
      exact .inl ⟨error, rfl, rfl⟩
    | ok a => exact .inr ⟨a, state', rfl, ran⟩

/-! ## Conditions before and after -/

variable {pre pre' : σ → Prop} {ok ok' : α → σ → Prop} {error error' : ε → σ → Prop}

/-- From a state with `pre` the call returns with `ok` or fails with `error`. -/
def Ensures (pre : σ → Prop) (call : Call ε σ α) (ok : α → σ → Prop) (error : ε → σ → Prop) : Prop :=
  ∀ state, pre state →
    match outcome call state with
    | (.ok a, after) => ok a after
    | (.error e, after) => error e after

theorem Ensures.pure {a : α} (holds : ∀ state, pre state → ok a state) :
    Ensures pre (Pure.pure a : Call ε σ α) ok error := holds

theorem Ensures.throw {e : ε} (holds : ∀ state, pre state → error e state) :
    Ensures pre (throw e : Call ε σ α) ok error := holds

theorem Ensures.weaken {call : Call ε σ α} (holds : Ensures pre call ok error)
    (before : ∀ state, pre' state → pre state) (returned : ∀ a state, ok a state → ok' a state)
    (failed : ∀ e state, error e state → error' e state) : Ensures pre' call ok' error' := by
  intro state start
  have kept := holds state (before state start)
  revert kept
  obtain ⟨result, after⟩ := outcome call state
  cases result with
  | ok a => exact returned a after
  | error e => exact failed e after

theorem Ensures.before {call : Call ε σ α} (holds : Ensures pre call ok error)
    (before : ∀ state, pre' state → pre state) : Ensures pre' call ok error :=
  holds.weaken before (fun _ _ kept => kept) fun _ _ kept => kept

/-- What holds in between is whatever the first step ensures. -/
theorem Ensures.bind {call : Call ε σ α} {next : α → Call ε σ β} {after : β → σ → Prop}
    (first : Ensures pre call ok error) (second : ∀ a, Ensures (ok a) (next a) after error) :
    Ensures pre (call >>= next) after error := by
  intro state start
  have kept := first state start
  rw [outcome_bind]
  revert kept
  obtain ⟨result, middle⟩ := outcome call state
  cases result with
  | ok a => exact second a middle
  | error e => exact id

/-- Two calls that begin alike agree when they agree wherever the first step may end. -/
theorem Ensures.bind_congr {call : Call ε σ α} {next next' : α → Call ε σ β} {state : σ}
    (first : Ensures pre call ok error) (start : pre state)
    (same : ∀ a after, ok a after → outcome (next a) after = outcome (next' a) after) :
    outcome (call >>= next) state = outcome (call >>= next') state := by
  have kept := first state start
  rw [outcome_bind, outcome_bind]
  revert kept
  obtain ⟨result, middle⟩ := outcome call state
  cases result with
  | ok a => exact same a middle
  | error e => exact fun _ => rfl

theorem Ensures.map {call : Call ε σ α} {f : α → β} {after : β → σ → Prop}
    (holds : Ensures pre call (fun a => after (f a)) error) : Ensures pre (f <$> call) after error := by
  rw [map_eq_pure_bind]
  exact holds.bind fun a => .pure fun _ kept => kept

/-- The outcome of an attempt is a value. -/
theorem Ensures.attempt {ε' : Type} {call : Call ε σ α} {after : Except ε α → σ → Prop} {failed : ε' → σ → Prop}
    (holds : Ensures pre call (fun a => after (.ok a)) fun e => after (.error e)) :
    Ensures pre call.attempt after failed := by
  intro state start
  have kept := holds state start
  rw [outcome_attempt]
  revert kept
  obtain ⟨result, middle⟩ := outcome call state
  cases result <;> exact id

theorem Ensures.of {result : Except ε α} {after : Except ε α → σ → Prop} :
    Ensures (after result) (Call.of result) (fun a => after (.ok a)) fun e => after (.error e) := by
  intro state start
  rw [outcome_of]
  cases result <;> exact start

/-- A condition on the state can be used before the call is run. -/
theorem Ensures.start {call : Call ε σ α} (holds : ∀ state, pre state → Ensures (· = state) call ok error) :
    Ensures pre call ok error :=
  fun state start => holds state start state rfl

end Call

end Sshelter
