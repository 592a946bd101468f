import Mathlib

/-! # The first free name

A loop that numbers a name until it meets one that nothing else has.  There is a free
name among one more of them than are taken, so a count of the taken names is enough fuel.
-/

namespace Sshelter

/-- The first of the names from `n` on that is not taken; it gives up after `fuel` taken ones. -/
def firstFree {α : Type} (taken : α → Bool) (name : Nat → α) : (fuel n : Nat) → α
  | 0, n => name n
  | fuel + 1, n => if taken (name n) then firstFree taken name fuel (n + 1) else name n

/-- The base and the suffix, from the second name on with a number between them. -/
def numbered (base suffix : String) : Nat → String
  | 0 => base ++ suffix
  | n + 1 => base ++ "-" ++ (n + 1).repr ++ suffix

section
variable {α : Type} {taken : α → Bool} {name : Nat → α}

theorem firstFree_eq_name (taken : α → Bool) (name : Nat → α) (fuel n : Nat) : ∃ i, firstFree taken name fuel n = name i := by
  induction fuel generalizing n with
  | zero => exact ⟨n, rfl⟩
  | succ fuel ih =>
    simp only [firstFree]
    split
    · exact ih (n + 1)
    · exact ⟨n, rfl⟩

/-- The search ends at a taken name only after it has passed taken names all the way. -/
theorem taken_of_firstFree {fuel n : Nat} (found : taken (firstFree taken name fuel n) = true) (i : Nat)
    (within : i ≤ fuel) : taken (name (n + i)) = true := by
  induction fuel generalizing n i with
  | zero =>
    obtain rfl : i = 0 := by omega
    exact found
  | succ fuel ih =>
    simp only [firstFree] at found
    split at found
    · rename_i here
      cases i with
      | zero => exact here
      | succ i =>
        have later := ih found i (by omega)
        rwa [show n + (i + 1) = n + 1 + i by omega]
    · rename_i free
      exact absurd found free

theorem firstFree_free [DecidableEq α] (distinct : Function.Injective name) {used : List α}
    (covers : ∀ a, taken a = true → a ∈ used) {fuel : Nat} (enough : used.length ≤ fuel) (n : Nat) :
    taken (firstFree taken name fuel n) = false := by
  by_contra found
  rw [Bool.not_eq_false] at found
  -- more different names than there are used ones
  have passed : (List.range (fuel + 1)).map (fun i => name (n + i)) ⊆ used := by
    intro a member
    obtain ⟨i, within, rfl⟩ := List.mem_map.mp member
    rw [List.mem_range] at within
    exact covers _ (taken_of_firstFree found i (by omega))
  have different : ((List.range (fuel + 1)).map fun i => name (n + i)).Nodup :=
    List.nodup_range.map fun i j same => Nat.add_left_cancel (distinct same)
  have count := (List.subperm_of_subset different passed).length_le
  simp only [List.length_map, List.length_range] at count
  omega

end

theorem numbered_eq_append (base suffix : String) (n : Nat) : ∃ tail, numbered base suffix n = base ++ tail := by
  cases n with
  | zero => exact ⟨suffix, rfl⟩
  | succ n => exact ⟨"-" ++ (n + 1).repr ++ suffix, by simp only [numbered, String.append_assoc]⟩

theorem numbered_injective (base suffix : String) : Function.Injective (numbered base suffix) := by
  intro n m same
  have lengths := congrArg String.length same
  cases n with
  | zero =>
    cases m with
    | zero => rfl
    | succ m =>
      simp only [numbered, String.length_append] at lengths
      have dash : "-".length = 1 := rfl
      omega
  | succ n =>
    cases m with
    | zero =>
      simp only [numbered, String.length_append] at lengths
      have dash : "-".length = 1 := rfl
      omega
    | succ m =>
      have texts := congrArg String.toList same
      simp only [numbered, String.toList_append, List.append_left_inj, List.append_right_inj] at texts
      exact Nat.repr_injective (String.toList_injective texts)

end Sshelter
