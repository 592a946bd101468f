import Mathlib

/-! # Ordered string-keyed maps

`BTreeMap α` is the extensional ordered map of the standard library with
`String` keys.  Two maps are equal exactly when they answer every lookup alike,
and `toList` enumerates the entries in key order.  The lemmas below restate the
lookup equations with plain key equality in place of the comparator, which is
the form every proof over cached records rewrites with.
-/

namespace Sshelter

/-- Ordered map with string keys. -/
abbrev BTreeMap (α : Type) := Std.ExtTreeMap String α

namespace BTreeMap

variable {α β : Type}

/-- The entries' values, in key order. -/
def values (m : BTreeMap α) : List α := m.toList.map Prod.snd

@[grind =] theorem get?_insert (m : BTreeMap α) (k a : String) (v : α) :
    (m.insert k v)[a]? = if k = a then some v else m[a]? := by
  simp [Std.ExtTreeMap.getElem?_insert]

@[simp] theorem get?_insert_self (m : BTreeMap α) (k : String) (v : α) :
    (m.insert k v)[k]? = some v := by
  simp

theorem get?_insert_ne (m : BTreeMap α) {k a : String} (v : α) (ne : k ≠ a) :
    (m.insert k v)[a]? = m[a]? := by
  simp [get?_insert, ne]

@[grind =] theorem get?_erase (m : BTreeMap α) (k a : String) :
    (m.erase k)[a]? = if k = a then none else m[a]? := by
  simp [Std.ExtTreeMap.getElem?_erase]

theorem get?_erase_ne (m : BTreeMap α) {k a : String} (ne : k ≠ a) :
    (m.erase k)[a]? = m[a]? := by
  simp [get?_erase, ne]

theorem mem_toList {m : BTreeMap α} {k : String} {v : α} :
    (k, v) ∈ m.toList ↔ m[k]? = some v :=
  Std.ExtTreeMap.mem_toList_iff_getElem?_eq_some

theorem isEmpty_eq_false {m : BTreeMap α} {k : String} {v : α} (found : m[k]? = some v) : m.isEmpty = false := by
  rw [Bool.eq_false_iff]
  intro empty
  rw [Std.ExtTreeMap.isEmpty_iff.mp empty] at found
  simp at found

@[simp] theorem values_empty : (∅ : BTreeMap α).values = [] := by
  rw [values, List.map_eq_nil_iff, List.eq_nil_iff_forall_not_mem]
  rintro ⟨k, v⟩ member
  simp [Std.ExtTreeMap.mem_toList_iff_getElem?_eq_some] at member

theorem mem_values {m : BTreeMap α} {v : α} : v ∈ m.values ↔ ∃ k : String, m[k]? = some v := by
  simp [values]

theorem contains_eq {m : BTreeMap α} {k : String} : m.contains k = m[k]?.isSome := by
  rw [Std.ExtTreeMap.isSome_getElem?_eq_contains]

/-- A value stored under a key is the only one enumerated for that key. -/
theorem toList_keys_nodup (m : BTreeMap α) : (m.toList.map Prod.fst).Nodup := by
  rw [List.Nodup, List.pairwise_map]
  refine (Std.ExtTreeMap.distinct_keys_toList (t := m)).imp ?_
  intro a b distinct equal
  exact distinct (by simp [equal])

theorem ext {m₁ m₂ : BTreeMap α} (same : ∀ k : String, m₁[k]? = m₂[k]?) : m₁ = m₂ :=
  Std.ExtTreeMap.ext_getElem? same

theorem toList_ordered (m : BTreeMap α) :
    m.toList.Pairwise fun a b => compare a.1 b.1 = .lt :=
  Std.ExtTreeMap.ordered_keys_toList

/-- Writing under a key that is there changes that entry and keeps the order of the others. -/
theorem toList_insert_of_get? {m : BTreeMap α} {k : String} {old : α} (v : α) (found : m[k]? = some old) :
    (m.insert k v).toList = m.toList.map fun entry => (entry.1, if entry.1 = k then v else entry.2) := by
  have ordered : (m.toList.map fun entry => (entry.1, if entry.1 = k then v else entry.2)).Pairwise
      fun a b => compare a.1 b.1 = .lt := List.pairwise_map.mpr (toList_ordered m)
  have irrefl {β : Type} {l : List (String × β)} (sorted : l.Pairwise fun a b => compare a.1 b.1 = .lt) :
      l.Nodup := by
    refine sorted.imp ?_
    rintro a b lt rfl
    simp at lt
  apply List.Perm.eq_of_pairwise ?_ (toList_ordered _) ordered
  · rw [List.perm_ext_iff_of_nodup (irrefl (toList_ordered _)) (irrefl ordered)]
    rintro ⟨key, value⟩
    simp only [mem_toList, get?_insert, List.mem_map, Prod.exists, Prod.mk.injEq]
    constructor
    · intro here
      by_cases same : k = key
      · subst same
        simp only [if_pos] at here
        exact ⟨k, old, found, rfl, by simpa using here⟩
      · rw [if_neg same] at here
        exact ⟨key, value, here, rfl, if_neg (Ne.symm same)⟩
    · rintro ⟨key', value', here, rfl, rfl⟩
      by_cases same : k = key'
      · simp [same]
      · rw [if_neg same, if_neg (Ne.symm same)]
        exact here
  · intro a b _ _ lt gt
    exact absurd (Std.OrientedCmp.gt_iff_lt.mpr lt) (by rw [gt]; simp)

/-- An entry taken out of the enumeration. -/
theorem toList_perm_erase {m : BTreeMap α} {k : String} {v : α} (found : m[k]? = some v) :
    m.toList.Perm ((k, v) :: (m.erase k).toList) := by
  have nodup {n : BTreeMap α} : n.toList.Nodup := (toList_keys_nodup n).of_map Prod.fst
  rw [List.perm_ext_iff_of_nodup nodup ?_]
  · rintro ⟨key, value⟩
    simp only [mem_toList, List.mem_cons, Prod.mk.injEq, get?_erase]
    by_cases here : k = key
    · subst here
      simp [found, eq_comm]
    · simp [here, Ne.symm here]
  · refine List.nodup_cons.mpr ⟨?_, nodup⟩
    simp

theorem erase_of_get?_eq_none {m : BTreeMap α} {k : String} (absent : m[k]? = none) : m.erase k = m := by
  refine ext fun a => ?_
  rw [get?_erase]
  split
  · rename_i here
    rw [← here, absent]
  · rfl

theorem erase_erase (m : BTreeMap α) (k : String) : (m.erase k).erase k = m.erase k := by
  refine ext fun a => ?_
  rw [get?_erase, get?_erase]
  split <;> rfl

/-- The entries written one after another. -/
def insertAll (m : BTreeMap α) (entries : List (String × α)) : BTreeMap α :=
  entries.foldl (fun m entry => m.insert entry.1 entry.2) m

theorem get?_insertAll_of_not_mem {m : BTreeMap α} {entries : List (String × α)} {k : String}
    (absent : k ∉ entries.map Prod.fst) : (m.insertAll entries)[k]? = m[k]? := by
  induction entries generalizing m with
  | nil => rfl
  | cons entry rest ih =>
    rw [List.map_cons, List.mem_cons, not_or] at absent
    show (insertAll (m.insert entry.1 entry.2) rest)[k]? = m[k]?
    rw [ih absent.2, get?_insert_ne _ _ (Ne.symm absent.1)]

theorem get?_insertAll_of_mem {m : BTreeMap α} {entries : List (String × α)} {k : String} {v : α}
    (distinct : (entries.map Prod.fst).Nodup) (member : (k, v) ∈ entries) :
    (m.insertAll entries)[k]? = some v := by
  induction entries generalizing m with
  | nil => cases member
  | cons entry rest ih =>
    rw [List.map_cons, List.nodup_cons] at distinct
    show (insertAll (m.insert entry.1 entry.2) rest)[k]? = some v
    obtain rfl | later := List.mem_cons.mp member
    · rw [get?_insertAll_of_not_mem distinct.1, get?_insert_self]
    · exact ih distinct.2 later

/-- Entries under distinct keys are all there is in the map they fill. -/
theorem toList_insertAll_perm {entries : List (String × α)} (distinct : (entries.map Prod.fst).Nodup) :
    ((∅ : BTreeMap α).insertAll entries).toList.Perm entries := by
  rw [List.perm_ext_iff_of_nodup ((toList_keys_nodup _).of_map Prod.fst) (distinct.of_map Prod.fst)]
  rintro ⟨k, v⟩
  rw [mem_toList]
  constructor
  · intro found
    by_cases known : k ∈ entries.map Prod.fst
    · obtain ⟨⟨_, value⟩, member, rfl⟩ := List.mem_map.mp known
      rw [get?_insertAll_of_mem distinct member] at found
      cases found
      exact member
    · rw [get?_insertAll_of_not_mem known] at found
      simp at found
  · exact get?_insertAll_of_mem distinct

end BTreeMap

end Sshelter
