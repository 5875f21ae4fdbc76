import Mathlib

/-!
# Totals over ordered finite maps

An accumulator that is kept next to a finite map is correct when it agrees
with a total over the map's values.  This file defines that total for
`Std.ExtTreeMap` and proves how the two primitive updates change it, together
with the two cancellation laws used when a recorded update is undone.
-/

namespace FiniteMap

open Std

variable {κ ν : Type*} [Ord κ] [TransOrd κ] [LawfulEqOrd κ]

def values (map : ExtTreeMap κ ν) : List ν :=
  map.toList.map Prod.snd

/-- Sum of a weight over all values held by a map. -/
def total (weight : ν → Nat) (map : ExtTreeMap κ ν) : Nat :=
  ((values map).map weight).sum

theorem mem_values {map : ExtTreeMap κ ν} {value : ν} :
    value ∈ values map ↔ ∃ key : κ, map[key]? = some value := by
  simp [values, ExtTreeMap.mem_toList_iff_getElem?_eq_some]

omit [LawfulEqOrd κ] in
theorem nodup_toList (map : ExtTreeMap κ ν) : map.toList.Nodup := by
  have distinct := map.nodup_keys
  rw [← ExtTreeMap.map_fst_toList_eq_keys] at distinct
  exact distinct.of_map _

theorem toList_insert_perm {map : ExtTreeMap κ ν} {key : κ} (value : ν)
    (fresh : key ∉ map) :
    (map.insert key value).toList.Perm ((key, value) :: map.toList) := by
  have absent : map[key]? = none := ExtTreeMap.getElem?_eq_none fresh
  have headNew : (key, value) ∉ map.toList := by
    rw [ExtTreeMap.mem_toList_iff_getElem?_eq_some, absent]
    simp
  apply (List.perm_ext_iff_of_nodup (nodup_toList _)
    (List.nodup_cons.mpr ⟨headNew, nodup_toList map⟩)).mpr
  rintro ⟨other, held⟩
  rw [ExtTreeMap.mem_toList_iff_getElem?_eq_some, List.mem_cons,
    ExtTreeMap.mem_toList_iff_getElem?_eq_some, ExtTreeMap.getElem?_insert]
  by_cases same : key = other
  · subst same
    simp [absent, eq_comm]
  · simp [same, Ne.symm same]

theorem total_insert (weight : ν → Nat) {map : ExtTreeMap κ ν} {key : κ}
    (value : ν) (fresh : key ∉ map) :
    total weight (map.insert key value) = weight value + total weight map := by
  have perm := (toList_insert_perm value fresh).map (weight ∘ Prod.snd)
  simpa [total, values] using perm.sum_eq

theorem getElem?_insert_of_ne {map : ExtTreeMap κ ν} {key other : κ} {value : ν}
    (different : other ≠ key) : (map.insert key value)[other]? = map[other]? := by
  rw [ExtTreeMap.getElem?_insert]
  simp [Ne.symm different]

theorem getElem?_erase_of_ne {map : ExtTreeMap κ ν} {key other : κ}
    (different : other ≠ key) : (map.erase key)[other]? = map[other]? := by
  rw [ExtTreeMap.getElem?_erase]
  simp [Ne.symm different]

theorem insert_erase {map : ExtTreeMap κ ν} {key : κ} {value : ν}
    (held : map[key]? = some value) :
    (map.erase key).insert key value = map := by
  apply ExtTreeMap.ext_getElem?
  intro other
  rw [ExtTreeMap.getElem?_insert, ExtTreeMap.getElem?_erase]
  by_cases same : key = other
  · subst same
    simp [held]
  · simp [same]

theorem erase_insert {map : ExtTreeMap κ ν} {key : κ} {value : ν}
    (fresh : key ∉ map) :
    (map.insert key value).erase key = map := by
  apply ExtTreeMap.ext_getElem?
  intro other
  rw [ExtTreeMap.getElem?_erase, ExtTreeMap.getElem?_insert]
  by_cases same : key = other
  · subst same
    simp [ExtTreeMap.getElem?_eq_none fresh]
  · simp [same]

theorem total_erase (weight : ν → Nat) {map : ExtTreeMap κ ν} {key : κ}
    {value : ν} (held : map[key]? = some value) :
    weight value + total weight (map.erase key) = total weight map := by
  have gone : key ∉ map.erase key := by simp
  rw [← total_insert weight value gone, insert_erase held]

theorem total_le_total {small large : ν → Nat} {map : ExtTreeMap κ ν}
    (le : ∀ (key : κ) (value : ν), map[key]? = some value → small value ≤ large value) :
    total small map ≤ total large map := by
  apply List.sum_le_sum
  intro value member
  obtain ⟨key, held⟩ := mem_values.mp member
  exact le key value held

theorem total_congr {first second : ν → Nat} {map : ExtTreeMap κ ν}
    (eq : ∀ (key : κ) (value : ν), map[key]? = some value → first value = second value) :
    total first map = total second map :=
  Nat.le_antisymm
    (total_le_total fun key value held => (eq key value held).le)
    (total_le_total fun key value held => (eq key value held).ge)

theorem weight_le_total (weight : ν → Nat) {map : ExtTreeMap κ ν} {key : κ}
    {value : ν} (held : map[key]? = some value) :
    weight value ≤ total weight map := by
  rw [← total_erase weight held]
  exact Nat.le_add_right _ _

end FiniteMap
