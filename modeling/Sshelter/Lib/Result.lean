import Mathlib

/-! # Fallible computations

Equations for `Except` used to take an early-return function apart: which steps
must have succeeded for the whole to succeed.  `refuse` is the guard at the head
of a fallible function and `forEach` a loop whose body can fail.
-/

namespace Sshelter

/-- Fails with the given error when the condition holds. -/
def refuse {ε : Type} (bad : Bool) (error : ε) : Except ε Unit :=
  if bad then .error error else .ok ()

/-- Runs the body on a value that may be absent. -/
def forSome {ε α : Type} (item : Option α) (body : α → Except ε Unit) : Except ε Unit :=
  match item with
  | none => .ok ()
  | some a => body a

/-- Runs the body on every element, stopping at the first error. -/
def forEach {ε α : Type} (items : List α) (body : α → Except ε Unit) : Except ε Unit :=
  match items with
  | [] => .ok ()
  | item :: rest => do
    body item
    forEach rest body

namespace Result

variable {ε ε' α β : Type}

@[simp] theorem ok_bind (a : α) (f : α → Except ε β) : (Except.ok a >>= f) = f a := rfl

@[simp] theorem error_bind (e : ε) (f : α → Except ε β) : (Except.error e >>= f) = .error e := rfl

theorem bind_eq_ok {x : Except ε α} {f : α → Except ε β} {b : β} :
    (x >>= f) = .ok b ↔ ∃ a, x = .ok a ∧ f a = .ok b := by
  cases x with
  | error e => simp
  | ok a => simp

@[simp] theorem refuse_eq_ok {bad : Bool} {error : ε} {u : Unit} :
    refuse bad error = .ok u ↔ bad = false := by
  cases bad <;> simp [refuse]

@[simp] theorem refuse_bind_eq_ok {bad : Bool} {error : ε} {f : Unit → Except ε β} {b : β} :
    (refuse bad error >>= f) = .ok b ↔ bad = false ∧ f () = .ok b := by
  cases bad <;> simp [refuse]

@[simp] theorem refuse_false (error : ε) : refuse false error = .ok () := rfl

@[simp] theorem refuse_true (error : ε) : refuse true error = .error error := rfl

theorem mapError_eq_ok {x : Except ε α} {f : ε → ε'} {a : α} :
    x.mapError f = .ok a ↔ x = .ok a := by
  cases x <;> simp [Except.mapError]

theorem forEach_eq_ok {items : List α} {body : α → Except ε Unit} :
    forEach items body = .ok () ↔ ∀ item ∈ items, body item = .ok () := by
  induction items with
  | nil => simp [forEach]
  | cons item rest ih =>
    simp only [forEach, bind_eq_ok, List.mem_cons, forall_eq_or_imp, ih]
    constructor
    · rintro ⟨⟨⟩, first, others⟩
      exact ⟨first, others⟩
    · rintro ⟨first, others⟩
      exact ⟨(), first, others⟩

/-- What every step of a loop preserves holds after the whole loop.  The invariant may
mention the items already handled. -/
theorem foldlM_invariant {σ : Type} {step : σ → α → Except ε σ} (inv : List α → σ → Prop)
    {items : List α} {start final : σ} (initial : inv [] start)
    (preserved : ∀ done state item rest state', items = done ++ item :: rest → inv done state →
      step state item = .ok state' → inv (done ++ [item]) state')
    (runs : items.foldlM step start = .ok final) : inv items final := by
  suffices general : ∀ (rest done : List α) (state : σ), items = done ++ rest → inv done state →
      rest.foldlM step state = .ok final → inv items final from
    general items [] start rfl initial runs
  intro rest
  induction rest with
  | nil =>
    intro done state split holds runs
    rw [List.append_nil] at split
    obtain rfl : state = final := Except.ok.inj runs
    rw [split]
    exact holds
  | cons item rest ih =>
    intro done state split holds runs
    rw [List.foldlM_cons, bind_eq_ok] at runs
    obtain ⟨state', stepped, runs⟩ := runs
    exact ih (done ++ [item]) state' (by simpa using split)
      (preserved done state item rest state' split holds stepped) runs

theorem forSome_eq_ok {item : Option α} {body : α → Except ε Unit} :
    forSome item body = .ok () ↔ ∀ a, item = some a → body a = .ok () := by
  cases item <;> simp [forSome]

theorem isOk_iff {x : Except ε α} : x.isOk = true ↔ ∃ a, x = .ok a := by
  cases x <;> simp [Except.isOk, Except.toBool]

theorem mem_toOption {x : Except ε α} {a : α} : a ∈ x.toOption ↔ x = .ok a := by
  cases x <;> simp [Except.toOption]

theorem isOk_bind {x : Except ε α} {f : α → Except ε β} :
    (x >>= f).isOk = true ↔ ∃ a, x = .ok a ∧ (f a).isOk = true := by
  cases x with
  | error e => simp [Except.isOk, Except.toBool]
  | ok a => simp

/-- A check in front of a computation. -/
theorem check_eq_ok {x : Except ε Unit} {f : Unit → Except ε β} {b : β} :
    (x >>= f) = .ok b ↔ x = .ok () ∧ f () = .ok b := by
  rw [bind_eq_ok]
  exact ⟨fun ⟨⟨⟩, checked, rest⟩ => ⟨checked, rest⟩, fun ⟨checked, rest⟩ => ⟨(), checked, rest⟩⟩

theorem isOk_check {x : Except ε Unit} {f : Unit → Except ε β} :
    (x >>= f).isOk = true ↔ x = .ok () ∧ (f ()).isOk = true := by
  rw [isOk_bind]
  exact ⟨fun ⟨⟨⟩, checked, rest⟩ => ⟨checked, rest⟩, fun ⟨checked, rest⟩ => ⟨(), checked, rest⟩⟩

/-- A total step after a computation. -/
theorem isOk_map {x : Except ε α} {f : α → β} :
    (x >>= fun a => pure (f a)).isOk = x.isOk := by
  cases x <;> rfl

@[simp] theorem isOk_ok (a : α) : (Except.ok a : Except ε α).isOk = true := rfl

@[simp] theorem isOk_error (e : ε) : (Except.error e : Except ε α).isOk = false := rfl

@[simp] theorem isOk_mapError {x : Except ε α} {f : ε → ε'} : (x.mapError f).isOk = x.isOk := by
  cases x <;> rfl

/-- A loop that collects results succeeds when its body succeeds on every element. -/
theorem mapM_isOk {items : List α} {body : α → Except ε β} :
    (items.mapM body).isOk = true ↔ ∀ item ∈ items, (body item).isOk = true := by
  induction items with
  | nil => simp [pure, Except.pure]
  | cons item rest ih =>
    rw [List.mapM_cons, isOk_bind]
    simp only [isOk_bind, List.mem_cons, forall_eq_or_imp, ← ih]
    constructor
    · rintro ⟨_, first, _, others, _⟩
      exact ⟨isOk_iff.mpr ⟨_, first⟩, isOk_iff.mpr ⟨_, others⟩⟩
    · rintro ⟨first, others⟩
      obtain ⟨a, first⟩ := isOk_iff.mp first
      obtain ⟨as, others⟩ := isOk_iff.mp others
      exact ⟨a, first, as, others, rfl⟩

/-- A loop whose steps all leave the state alone. -/
theorem foldlM_fixed {σ : Type} {step : σ → α → Except ε σ} {items : List α} {start : σ}
    (fixed : ∀ item ∈ items, step start item = .ok start) : items.foldlM step start = .ok start := by
  induction items with
  | nil => rfl
  | cons item rest ih =>
    simp only [List.mem_cons, forall_eq_or_imp] at fixed
    rw [List.foldlM_cons, fixed.1]
    exact ih fixed.2

/-- Everything a collecting loop returns comes from one run of its body. -/
theorem mem_mapM {items : List α} {body : α → Except ε β} {results : List β}
    (runs : items.mapM body = .ok results) {b : β} :
    b ∈ results ↔ ∃ item ∈ items, body item = .ok b := by
  induction items generalizing results with
  | nil =>
    obtain rfl : [] = results := Except.ok.inj runs
    simp
  | cons item rest ih =>
    rw [List.mapM_cons, bind_eq_ok] at runs
    obtain ⟨first, ran, runs⟩ := runs
    obtain ⟨others, rans, collected⟩ := bind_eq_ok.mp runs
    obtain rfl : first :: others = results := Except.ok.inj collected
    simp only [List.mem_cons, ih rans, exists_eq_or_imp, ran, Except.ok.injEq, @eq_comm _ b first]

/-- A collecting loop returns the results of its body in order. -/
theorem mapM_forall₂ {items : List α} {body : α → Except ε β} {results : List β}
    (runs : items.mapM body = .ok results) :
    List.Forall₂ (fun item b => body item = .ok b) items results := by
  induction items generalizing results with
  | nil =>
    obtain rfl : [] = results := Except.ok.inj runs
    exact .nil
  | cons item rest ih =>
    rw [List.mapM_cons, bind_eq_ok] at runs
    obtain ⟨first, ran, runs⟩ := runs
    obtain ⟨others, rans, collected⟩ := bind_eq_ok.mp runs
    obtain rfl : first :: others = results := Except.ok.inj collected
    exact .cons ran (ih rans)

/-- A collecting loop fails with an error of its body. -/
theorem mapM_eq_error {items : List α} {body : α → Except ε β} {error : ε}
    (runs : items.mapM body = .error error) : ∃ item ∈ items, body item = .error error := by
  induction items with
  | nil => cases runs
  | cons item rest ih =>
    rw [List.mapM_cons] at runs
    cases ran : body item with
    | error _ =>
      rw [ran, error_bind] at runs
      obtain rfl := Except.error.inj runs
      exact ⟨item, List.mem_cons_self, ran⟩
    | ok first =>
      rw [ran, ok_bind] at runs
      cases rans : rest.mapM body with
      | ok others =>
        rw [rans, ok_bind] at runs
        cases runs
      | error _ =>
        rw [rans, error_bind] at runs
        obtain rfl := Except.error.inj runs
        obtain ⟨other, member, failed⟩ := ih rans
        exact ⟨other, List.mem_cons_of_mem _ member, failed⟩

/-- A collecting loop whose body keeps a key keeps the list of keys. -/
theorem mapM_keys {γ : Type} {items : List α} {body : α → Except ε β} {results : List β}
    (key : α → γ) (key' : β → γ) (each : ∀ item b, body item = .ok b → key' b = key item)
    (runs : items.mapM body = .ok results) : results.map key' = items.map key := by
  induction items generalizing results with
  | nil =>
    obtain rfl : [] = results := Except.ok.inj runs
    rfl
  | cons item rest ih =>
    rw [List.mapM_cons, bind_eq_ok] at runs
    obtain ⟨first, ran, runs⟩ := runs
    obtain ⟨others, rans, collected⟩ := bind_eq_ok.mp runs
    obtain rfl : first :: others = results := Except.ok.inj collected
    rw [List.map_cons, List.map_cons, each item first ran, ih rans]

/-- A loop that collects lists of tagged values returns every tag once, when each run of
the body does and its tags say which element they come from. -/
theorem mapM_flatten_nodup {γ δ : Type} {items : List α} {body : α → Except ε (List β)}
    {results : List (List β)} (tag : β → γ) (origin : γ → δ) (key : α → δ)
    (distinct : (items.map key).Nodup)
    (each : ∀ item ∈ items, ∀ bs, body item = .ok bs →
      (bs.map tag).Nodup ∧ ∀ b ∈ bs, origin (tag b) = key item)
    (runs : items.mapM body = .ok results) : (results.flatten.map tag).Nodup := by
  induction items generalizing results with
  | nil =>
    obtain rfl : [] = results := Except.ok.inj runs
    simp
  | cons item rest ih =>
    rw [List.mapM_cons, bind_eq_ok] at runs
    obtain ⟨first, ran, runs⟩ := runs
    obtain ⟨others, rans, collected⟩ := bind_eq_ok.mp runs
    obtain rfl : first :: others = results := Except.ok.inj collected
    obtain ⟨fresh, distinct⟩ := List.nodup_cons.mp distinct
    have later := ih distinct (fun item member => each item (List.mem_cons_of_mem _ member)) rans
    obtain ⟨single, tagged⟩ := each item List.mem_cons_self first ran
    rw [List.flatten_cons, List.map_append, List.nodup_append]
    refine ⟨single, later, ?_⟩
    rintro t member _ member' rfl
    obtain ⟨b, inFirst, rfl⟩ := List.mem_map.mp member
    obtain ⟨b', inRest, same⟩ := List.mem_map.mp member'
    obtain ⟨bs, inOthers, inList⟩ := List.mem_flatten.mp inRest
    obtain ⟨item', inItems, ran'⟩ := (mem_mapM rans).mp inOthers
    -- The shared tag would come from two elements with one key.
    have origins := (each item' (List.mem_cons_of_mem _ inItems) bs ran').2 b' inList
    rw [same, tagged b inFirst] at origins
    exact fresh (origins ▸ List.mem_map_of_mem inItems)

/-- A loop whose body fails on the same elements in every state. -/
theorem foldlM_isOk {σ : Type} {step : σ → α → Except ε σ} {good : α → Prop}
    (steps : ∀ state item, (step state item).isOk = true ↔ good item) {items : List α} {start : σ} :
    (items.foldlM step start).isOk = true ↔ ∀ item ∈ items, good item := by
  induction items generalizing start with
  | nil => simp [pure, Except.pure]
  | cons item rest ih =>
    rw [List.foldlM_cons, isOk_bind]
    simp only [ih, exists_and_right, ← isOk_iff, steps, List.mem_cons, forall_eq_or_imp]

end Result

end Sshelter
