import Mathlib

/-!
# Removing entries of a list by their indices

A list can be trimmed by choosing some of its entries together with their indices and
keeping the entries whose index was not chosen.  The order of the choice does not matter.
-/

namespace IndexedTrims

variable {α : Type*}

/-- The entries of a list whose indices are not among the chosen ones. -/
def trim (items : List α) (chosen : List (α × Nat)) : List α :=
  (items.zipIdx.filter fun entry => !(chosen.map Prod.snd).contains entry.2).map Prod.fst

theorem trim_sublist (items : List α) (chosen : List (α × Nat)) :
    (trim items chosen).Sublist items := by
  have kept := (List.filter_sublist (l := items.zipIdx)
    (p := fun entry => !(chosen.map Prod.snd).contains entry.2)).map Prod.fst
  rwa [List.zipIdx_map_fst] at kept

section Choice

variable {items : List α} {chosen : List (α × Nat)} (subset : chosen ⊆ items.zipIdx)

include subset

theorem mem_chosen_iff {entry : α × Nat} (member : entry ∈ items.zipIdx) :
    entry.2 ∈ chosen.map Prod.snd ↔ entry ∈ chosen := by
  constructor
  · intro listed
    obtain ⟨other, there, same⟩ := List.mem_map.mp listed
    have first := List.mem_zipIdx_iff_getElem?.mp member
    have second := List.mem_zipIdx_iff_getElem?.mp (subset there)
    rw [same, first, Option.some_inj] at second
    rwa [show entry = other from Prod.ext second same.symm]
  · exact List.mem_map_of_mem

theorem filter_sublist_trim {p : α → Bool} (only : ∀ entry ∈ chosen, p entry.1 = true) :
    (items.filter fun item => !p item).Sublist (trim items chosen) := by
  have unchosen : (items.zipIdx.filter fun entry => !p entry.1) =
      (items.zipIdx.filter fun entry => !(chosen.map Prod.snd).contains entry.2).filter
        fun entry => !p entry.1 := by
    rw [List.filter_filter]
    refine List.filter_congr fun entry member => ?_
    cases chosenOne : p entry.1 with
    | true => rfl
    | false =>
        have absent : entry ∉ chosen := fun there => by
          rw [only entry there] at chosenOne
          cases chosenOne
        rw [← mem_chosen_iff subset member] at absent
        simpa using absent
  have pairs : (items.zipIdx.filter fun entry => !p entry.1).Sublist
      (items.zipIdx.filter fun entry => !(chosen.map Prod.snd).contains entry.2) := by
    rw [unchosen]
    exact List.filter_sublist
  have entries := pairs.map Prod.fst
  rwa [show (fun entry : α × Nat => !p entry.1) = (fun item => !p item) ∘ Prod.fst from rfl,
    ← List.filter_map, List.zipIdx_map_fst] at entries

theorem trim_eq_filter {p : α → Bool} (only : ∀ entry ∈ chosen, p entry.1 = true)
    (all : ∀ entry ∈ items.zipIdx, p entry.1 = true → entry ∈ chosen) :
    trim items chosen = items.filter fun item => !p item := by
  have same : (items.zipIdx.filter fun entry => !(chosen.map Prod.snd).contains entry.2) =
      items.zipIdx.filter fun entry => !p entry.1 := by
    refine List.filter_congr fun entry member => ?_
    rw [Bool.not_inj_iff, Bool.eq_iff_iff, List.contains_iff_mem,
      mem_chosen_iff subset member]
    exact ⟨only entry, all entry member⟩
  rw [trim, same, show (fun entry : α × Nat => !p entry.1) =
    (fun item => !p item) ∘ Prod.fst from rfl, ← List.filter_map, List.zipIdx_map_fst]

theorem length_trim (distinct : chosen.Nodup) :
    (trim items chosen).length + chosen.length = items.length := by
  classical
  have nodup : items.zipIdx.Nodup := by
    apply List.Nodup.of_map Prod.snd
    rw [List.zipIdx_map_snd]
    exact List.nodup_range'
  have taken : (items.zipIdx.filter fun entry =>
      (chosen.map Prod.snd).contains entry.2).length = chosen.length := by
    apply List.Perm.length_eq
    rw [List.perm_ext_iff_of_nodup (nodup.filter _) distinct]
    intro entry
    rw [List.mem_filter, List.contains_iff_mem]
    constructor
    · rintro ⟨member, listed⟩
      exact (mem_chosen_iff subset member).mp listed
    · intro there
      exact ⟨subset there, (mem_chosen_iff subset (subset there)).mpr there⟩
  have whole := List.length_eq_countP_add_countP
    (fun entry : α × Nat => (chosen.map Prod.snd).contains entry.2) (l := items.zipIdx)
  rw [List.countP_eq_length_filter, taken, List.length_zipIdx] at whole
  rw [trim, List.length_map, ← List.countP_eq_length_filter, whole, Nat.add_comm]
  congr 1
  refine List.countP_congr fun entry _ => ?_
  simp

end Choice

end IndexedTrims
