import Vtorrent.FiniteMapTotals

/-!
# Filtering ordered finite maps

How a filtered map, and a map with many keys erased or inserted, looks at one key, and how
a total splits along a filter.
-/

namespace FiniteMap

open Std

variable {κ ν α : Type*} [Ord κ] [TransOrd κ] [LawfulEqOrd κ]

theorem getElem?_filter (map : ExtTreeMap κ ν) (keep : κ → ν → Bool) (key : κ) :
    (map.filter keep)[key]? = map[key]?.filter (keep key) := by
  rw [ExtTreeMap.getElem?_filter]
  simp

omit [LawfulEqOrd κ] in
@[simp]
theorem total_empty (weight : ν → Nat) : total weight (∅ : ExtTreeMap κ ν) = 0 := rfl

omit [LawfulEqOrd κ] in
theorem total_filter (weight : ν → Nat) (map : ExtTreeMap κ ν) (keep : κ → ν → Bool) :
    total weight (map.filter keep) + total weight (map.filter fun key value => !keep key value) =
      total weight map := by
  simp only [total, values, ExtTreeMap.toList_filter]
  induction map.toList with
  | nil => rfl
  | cons held rest ih =>
      cases kept : keep held.1 held.2
      · simp only [List.filter_cons, kept, Bool.not_false, if_true, Bool.false_eq_true, if_false,
          List.map_cons, List.sum_cons] at ih ⊢
        omega
      · simp only [List.filter_cons, kept, Bool.not_true, if_true, Bool.false_eq_true, if_false,
          List.map_cons, List.sum_cons] at ih ⊢
        omega

omit [LawfulEqOrd κ] in
theorem total_filter_le (weight : ν → Nat) (map : ExtTreeMap κ ν) (keep : κ → ν → Bool) :
    total weight (map.filter keep) ≤ total weight map := by
  rw [← total_filter weight map keep]
  exact Nat.le_add_right _ _

theorem total_replace (weight : ν → Nat) {map : ExtTreeMap κ ν} {key : κ} {old : ν}
    (held : map[key]? = some old) (value : ν) :
    weight old + total weight (map.insert key value) = weight value + total weight map := by
  have gone : key ∉ map.erase key := by simp
  have same : (map.erase key).insert key value = map.insert key value := by
    apply ExtTreeMap.ext_getElem?
    intro other
    rw [ExtTreeMap.getElem?_insert, ExtTreeMap.getElem?_insert, ExtTreeMap.getElem?_erase]
    split <;> rfl
  rw [← same, total_insert weight value gone, ← total_erase weight held]
  omega

section Folds

variable [DecidableEq κ]

theorem getElem?_foldl_erase (keyOf : α → κ) (items : List α) (map : ExtTreeMap κ ν) (key : κ) :
    (items.foldl (fun map item => map.erase (keyOf item)) map)[key]? =
      if ∃ item ∈ items, keyOf item = key then none else map[key]? := by
  induction items generalizing map with
  | nil => simp
  | cons item items ih =>
      rw [List.foldl_cons, ih, ExtTreeMap.getElem?_erase]
      by_cases here : keyOf item = key <;> simp [here]

theorem getElem?_foldl_insert (keyOf : α → κ) (value : ν) (items : List α)
    (map : ExtTreeMap κ ν) (key : κ) :
    (items.foldl (fun map item => map.insert (keyOf item) value) map)[key]? =
      if ∃ item ∈ items, keyOf item = key then some value else map[key]? := by
  induction items generalizing map with
  | nil => simp
  | cons item items ih =>
      rw [List.foldl_cons, ih, ExtTreeMap.getElem?_insert]
      by_cases here : keyOf item = key <;> simp [here]

end Folds

end FiniteMap
