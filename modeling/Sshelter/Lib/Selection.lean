import Mathlib

/-! # Picking elements by request

Requests are served one after the other, each by the first element left that answers it; what no
request asks for follows in its old order.
-/

namespace Sshelter

variable {α β γ : Type}

def pickInOrder (answers : β → α → Bool) : (requests : List β) → List α → List α
  | [], items => items
  | request :: requests, items =>
    match items.find? (answers request) with
    | some item => item :: pickInOrder answers requests (items.eraseP (answers request))
    | none => pickInOrder answers requests items

/-- The first element of a kind, put in front. -/
theorem perm_find?_eraseP {p : α → Bool} {items : List α} {item : α} (found : items.find? p = some item) :
    (item :: items.eraseP p).Perm items := by
  induction items with
  | nil => cases found
  | cons first rest ih =>
    cases here : p first with
    | true =>
      rw [List.find?_cons_of_pos here] at found
      obtain rfl := Option.some.inj found
      rw [List.eraseP_cons_of_pos here]
    | false =>
      rw [List.find?_cons_of_neg (by simp [here])] at found
      rw [List.eraseP_cons_of_neg (by simp [here])]
      exact (List.Perm.swap first item _).trans ((ih found).cons first)

theorem eraseP_eq_erase [DecidableEq α] {p : α → Bool} {items : List α} {item : α} (found : items.find? p = some item) :
    items.eraseP p = items.erase item := by
  induction items with
  | nil => cases found
  | cons first rest ih =>
    cases here : p first with
    | true =>
      rw [List.find?_cons_of_pos here] at found
      obtain rfl := Option.some.inj found
      rw [List.eraseP_cons_of_pos here, List.erase_cons_head]
    | false =>
      rw [List.find?_cons_of_neg (by simp [here])] at found
      have other : first ≠ item := by
        rintro rfl
        rw [List.find?_some found] at here
        cases here
      rw [List.eraseP_cons_of_neg (by simp [here]), List.erase_cons_tail (by simpa using other), ih found]

theorem pickInOrder_perm (answers : β → α → Bool) (requests : List β) (items : List α) :
    (pickInOrder answers requests items).Perm items := by
  induction requests generalizing items with
  | nil => exact List.Perm.refl _
  | cons request requests ih =>
    rw [pickInOrder]
    split
    next item found => exact ((ih _).cons item).trans (perm_find?_eraseP found)
    next => exact ih items

/-- Picking places of elements picks the elements. -/
theorem pickInOrder_map (answers : β → α → Bool) (f : γ → α) (requests : List β) (items : List γ) :
    pickInOrder answers requests (items.map f) =
      (pickInOrder (fun request item => answers request (f item)) requests items).map f := by
  induction requests generalizing items with
  | nil => rfl
  | cons request requests ih =>
    rw [pickInOrder, pickInOrder, List.find?_map, List.eraseP_map]
    cases found : items.find? (answers request ∘ f) with
    | none =>
      have found : items.find? (fun item => answers request (f item)) = none := found
      rw [found]
      exact ih items
    | some item =>
      have found : items.find? (fun item => answers request (f item)) = some item := found
      rw [found]
      exact congrArg (f item :: ·) (ih _)

/-- Picking again changes nothing: each request finds its element in front. -/
theorem pickInOrder_idempotent (answers : β → α → Bool) (requests : List β) (items : List α) :
    pickInOrder answers requests (pickInOrder answers requests items) = pickInOrder answers requests items := by
  induction requests generalizing items with
  | nil => rfl
  | cons request requests ih =>
    cases found : items.find? (answers request) with
    | some item =>
      have here : answers request item = true := List.find?_some found
      have picked : pickInOrder answers (request :: requests) items =
          item :: pickInOrder answers requests (items.eraseP (answers request)) := by rw [pickInOrder, found]
      rw [picked, pickInOrder, List.find?_cons_of_pos here, List.eraseP_cons_of_pos here]
      exact congrArg (item :: ·) (ih _)
    | none =>
      have picked : pickInOrder answers (request :: requests) items = pickInOrder answers requests items := by
        rw [pickInOrder, found]
      -- nobody answers in the picked list either
      have later : (pickInOrder answers requests items).find? (answers request) = none := by
        rw [List.find?_eq_none] at found ⊢
        intro item member
        exact found item ((pickInOrder_perm answers requests items).mem_iff.mp member)
      rw [picked, pickInOrder, later]
      exact ih items

end Sshelter
