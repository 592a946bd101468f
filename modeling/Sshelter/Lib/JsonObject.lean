import Sshelter.Lib.BTreeMap
import Sshelter.Lib.Json

/-! # Maps as JSON objects

A map with string keys is written as an object with its entries as fields; a repeated key
is read as its last value.
-/

namespace Sshelter.Json

def ofMap {α : Type} (write : α → Json) (map : BTreeMap α) : Json :=
  .obj (map.toList.map fun entry => (entry.1, write entry.2))

def mapOf {α : Type} (read : Json → Option α) : Json → Option (BTreeMap α)
  | .obj fields => do
    let entries ← fields.mapM fun field => (read field.2).map fun value => (field.1, value)
    return Std.ExtTreeMap.ofList entries
  | _ => none

theorem ofList_toList {α : Type} (map : BTreeMap α) : (Std.ExtTreeMap.ofList map.toList : BTreeMap α) = map := by
  refine BTreeMap.ext fun k => ?_
  have distinct := Std.ExtTreeMap.distinct_keys_toList (t := map)
  cases here : map[k]? with
  | none =>
    refine Std.ExtTreeMap.getElem?_ofList_of_contains_eq_false ?_
    by_contra member
    obtain ⟨entry, inside, same⟩ := List.mem_map.mp (List.contains_iff_mem.mp (Bool.not_eq_false _ ▸ member))
    have found := BTreeMap.mem_toList.mp (show (entry.1, entry.2) ∈ map.toList from inside)
    rw [same, here] at found
    cases found
  | some value =>
    exact Std.ExtTreeMap.getElem?_ofList_of_mem (by simp) distinct (BTreeMap.mem_toList.mpr here)

theorem mapOf_ofMap {α : Type} {write : α → Json} {read : Json → Option α}
    (inverse : ∀ a, read (write a) = some a) (map : BTreeMap α) : mapOf read (ofMap write map) = some map := by
  have entries (list : List (String × α)) :
      ((list.map fun entry => (entry.1, write entry.2)).mapM fun field =>
        (read field.2).map fun value => (field.1, value)) = some list := by
    induction list with
    | nil => rfl
    | cons entry rest ih =>
      rw [List.map_cons, List.mapM_cons, ih, inverse]
      rfl
  simp only [mapOf, ofMap, entries]
  exact congrArg some (ofList_toList map)

end Sshelter.Json
