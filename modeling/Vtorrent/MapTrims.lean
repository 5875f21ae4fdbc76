import Vtorrent.FiniteMapFilters

/-!
# Removing the least entries of a map

A map with a limit is trimmed by sorting its entries by some rank and erasing the first of
them.  The erased keys differ from each other, so the size drops by their number.
-/

open Std

namespace FiniteMap

variable {κ ν : Type} [Ord κ] [TransOrd κ] [LawfulEqOrd κ]

theorem size_foldl_erase {keys : List κ} (distinct : keys.Nodup) {map : ExtTreeMap κ ν}
    (present : ∀ key ∈ keys, key ∈ map) :
    (keys.foldl (fun map key => map.erase key) map).size + keys.length = map.size := by
  induction keys generalizing map with
  | nil => simp
  | cons key keys ih =>
      obtain ⟨apart, distinct⟩ := List.nodup_cons.mp distinct
      have here : key ∈ map := present key List.mem_cons_self
      have nonempty : map.size ≠ 0 := by
        intro empty
        simp [ExtTreeMap.eq_empty_iff_size_eq_zero.mpr empty] at here
      have later := @ih distinct (map.erase key) fun other among => by
        have differs : key ≠ other := fun same => apart (same ▸ among)
        rw [ExtTreeMap.mem_erase]
        exact ⟨by simpa using differs, present other (List.mem_cons_of_mem _ among)⟩
      rw [ExtTreeMap.size_erase, if_pos (ExtTreeMap.mem_iff_contains.mp here)] at later
      rw [List.foldl_cons, List.length_cons]
      omega

theorem size_filter_insert {map : ExtTreeMap κ ν} {key : κ} (value : ν) (fresh : key ∉ map)
    (keep : κ → ν → Bool) :
    ((map.insert key value).filter keep).size =
      (map.filter keep).size + if keep key value then 1 else 0 := by
  rw [← ExtTreeMap.length_toList, ← ExtTreeMap.length_toList, ExtTreeMap.toList_filter,
    ExtTreeMap.toList_filter, ((toList_insert_perm value fresh).filter _).length_eq,
    List.filter_cons]
  split <;> rfl

theorem size_le_of_subset {μ : Type} {map : ExtTreeMap κ ν} {other : ExtTreeMap κ μ}
    (covered : ∀ key ∈ map, key ∈ other) : map.size ≤ other.size := by
  have subset : map.keys ⊆ other.keys := by
    intro key listed
    exact ExtTreeMap.mem_keys.mpr (covered key (ExtTreeMap.mem_keys.mp listed))
  simpa using (ExtTreeMap.nodup_keys.subperm subset).length_le

def leastKeys (rank : ν → Nat) (map : ExtTreeMap κ ν) (count : Nat) : List κ :=
  (((map.toList.map fun entry => (entry.1, rank entry.2)).mergeSort
    fun first second => first.2 ≤ second.2).take count).map Prod.fst

def trim (rank : ν → Nat) (map : ExtTreeMap κ ν) (count : Nat) : ExtTreeMap κ ν :=
  (leastKeys rank map count).foldl (fun map key => map.erase key) map

variable (rank : ν → Nat) (map : ExtTreeMap κ ν)

omit [LawfulEqOrd κ] in
theorem leastKeys_sublist (count : Nat) :
    ∃ keys : List κ, keys.Perm map.keys ∧ (leastKeys rank map count).Sublist keys := by
  refine ⟨((map.toList.map fun entry => (entry.1, rank entry.2)).mergeSort
    fun first second => first.2 ≤ second.2).map Prod.fst, ?_, ?_⟩
  · refine ((List.mergeSort_perm _ _).map Prod.fst).trans ?_
    rw [List.map_map]
    exact List.Perm.of_eq (ExtTreeMap.map_fst_toList_eq_keys)
  · exact (List.take_sublist _ _).map Prod.fst

theorem size_trim {count : Nat} (enough : count ≤ map.size) :
    (trim rank map count).size = map.size - count := by
  obtain ⟨keys, same, among⟩ := leastKeys_sublist rank map count
  have distinct : (leastKeys rank map count).Nodup :=
    ((same.nodup_iff).mpr ExtTreeMap.nodup_keys).sublist among
  have present : ∀ key ∈ leastKeys rank map count, key ∈ map := fun key listed =>
    ExtTreeMap.mem_keys.mp (same.mem_iff.mp (among.mem listed))
  have counted : (leastKeys rank map count).length = count := by
    simp [leastKeys, List.length_take, enough]
  have sizes := size_foldl_erase distinct present
  rw [trim]
  omega

variable {rank map}

theorem getElem?_trim [DecidableEq κ] (rank : ν → Nat) (map : ExtTreeMap κ ν) (count : Nat)
    (key : κ) :
    (trim rank map count)[key]? =
      if key ∈ leastKeys rank map count then none else map[key]? := by
  have erased := getElem?_foldl_erase id (leastKeys rank map count) map key
  simp only [id, exists_eq_right] at erased
  rw [trim, erased]

theorem of_trim [DecidableEq κ] {count : Nat} {key : κ} {value : ν}
    (found : (trim rank map count)[key]? = some value) : map[key]? = some value := by
  rw [getElem?_trim] at found
  split at found
  · cases found
  · exact found

theorem rank_le_of_trim [DecidableEq κ] {count : Nat} {key other : κ} {value kept : ν}
    (removed : key ∈ leastKeys rank map count) (found : map[key]? = some value)
    (left : (trim rank map count)[other]? = some kept) : rank value ≤ rank kept := by
  have held := of_trim left
  rw [getElem?_trim] at left
  have spared : other ∉ leastKeys rank map count := by
    intro listed
    rw [if_pos listed] at left
    cases left
  set sorted := (map.toList.map fun entry => (entry.1, rank entry.2)).mergeSort
    fun first second => decide (first.2 ≤ second.2) with sorted_eq
  have member : ∀ {entry}, entry ∈ sorted ↔
      ∃ value, map[entry.1]? = some value ∧ rank value = entry.2 := by
    rintro ⟨key, number⟩
    rw [sorted_eq, (List.mergeSort_perm _ _).mem_iff, List.mem_map]
    constructor
    · rintro ⟨⟨_, value⟩, listed, same⟩
      obtain ⟨rfl, rfl⟩ := Prod.mk.inj same
      exact ⟨value, ExtTreeMap.mem_toList_iff_getElem?_eq_some.mp listed, rfl⟩
    · rintro ⟨value, found, rfl⟩
      exact ⟨(key, value), ExtTreeMap.mem_toList_iff_getElem?_eq_some.mpr found, rfl⟩
  obtain ⟨⟨_, number⟩, taken, rfl⟩ := List.mem_map.mp removed
  obtain ⟨_, found', rfl⟩ := member.mp (List.mem_of_mem_take taken)
  obtain rfl := Option.some.inj (found.symm.trans found')
  have dropped : (other, rank kept) ∈ sorted.drop count := by
    have listed : (other, rank kept) ∈ sorted := member.mpr ⟨kept, held, rfl⟩
    rw [← List.take_append_drop count sorted, List.mem_append] at listed
    exact listed.resolve_left fun taken => spared (List.mem_map_of_mem taken)
  have ordered : sorted.Pairwise fun first second => first.2 ≤ second.2 := by
    have pairwise := @List.pairwise_mergeSort (κ × Nat)
      (fun first second => decide (first.2 ≤ second.2)) (by grind) (by grind)
      (map.toList.map fun entry => (entry.1, rank entry.2))
    simpa only [decide_eq_true_eq] using pairwise
  rw [← List.take_append_drop count sorted, List.pairwise_append] at ordered
  exact ordered.2.2 _ taken _ dropped

end FiniteMap
