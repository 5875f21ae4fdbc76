import Mathlib

/-!
# Merkle roots that duplicate the last node of odd levels

Each level pairs neighbouring nodes and pairs a lone last node with itself.
The root therefore determines the leaves only among lists of one length: a
list and the list extended by a copy of its tail can share every level above
the leaves.  Collision freedom is needed only for the pairs that are combined
in the two trees.
-/

namespace DuplicatingMerkle

variable {α : Type}

def pairs : List α → List (α × α)
  | [] => []
  | [last] => [(last, last)]
  | first :: second :: rest => (first, second) :: pairs rest

def level (combine : α → α → α) (nodes : List α) : List α :=
  (pairs nodes).map fun pair => combine pair.1 pair.2

def reduce (combine : α → α → α) : Nat → List α → List α
  | 0, nodes => nodes
  | fuel + 1, nodes =>
      if nodes.length ≤ 1 then nodes
      else reduce combine fuel (level combine nodes)

def combined (combine : α → α → α) : Nat → List α → List (α × α)
  | 0, _ => []
  | fuel + 1, nodes =>
      if nodes.length ≤ 1 then []
      else pairs nodes ++ combined combine fuel (level combine nodes)

def root (combine : α → α → α) (empty : α) (leaves : List α) : α :=
  (reduce combine leaves.length leaves).headD empty

/-- Every pair combined while computing the root of a list of leaves. -/
def preimages (combine : α → α → α) (leaves : List α) : List (α × α) :=
  combined combine leaves.length leaves

/-- Combining is injective on the listed pairs. -/
def CollisionFree (combine : α → α → α) (listed : List (α × α)) : Prop :=
  ∀ first ∈ listed, ∀ second ∈ listed,
    combine first.1 first.2 = combine second.1 second.2 → first = second

theorem length_pairs (nodes : List α) :
    (pairs nodes).length = (nodes.length + 1) / 2 := by
  induction nodes using pairs.induct with
  | case1 => simp [pairs]
  | case2 last => simp [pairs]
  | case3 first second rest ih =>
      simp only [pairs, List.length_cons, ih]
      omega

@[simp]
theorem length_level (combine : α → α → α) (nodes : List α) :
    (level combine nodes).length = (nodes.length + 1) / 2 := by
  rw [level, List.length_map, length_pairs]

theorem pairs_injective {first second : List α}
    (lengthEq : first.length = second.length)
    (pairsEq : pairs first = pairs second) : first = second := by
  induction first using pairs.induct generalizing second with
  | case1 => exact (List.eq_nil_of_length_eq_zero lengthEq.symm).symm
  | case2 last =>
      obtain ⟨other, rfl⟩ := List.length_eq_one_iff.mp lengthEq.symm
      simpa [pairs] using pairsEq
  | case3 a b rest ih =>
      match second, lengthEq, pairsEq with
      | a' :: b' :: rest', lengthEq, pairsEq =>
          simp only [pairs, List.cons.injEq, Prod.mk.injEq] at pairsEq
          obtain ⟨⟨rfl, rfl⟩, restPairs⟩ := pairsEq
          rw [ih (by simpa using lengthEq) restPairs]

theorem level_injective {combine : α → α → α} {first second : List α}
    (lengthEq : first.length = second.length)
    (injective : CollisionFree combine (pairs first ++ pairs second))
    (levelEq : level combine first = level combine second) :
    first = second := by
  apply pairs_injective lengthEq
  apply List.ext_getElem (by rw [length_pairs, length_pairs, lengthEq])
  intro index inFirst inSecond
  apply injective
  · exact List.mem_append_left _ (List.getElem_mem inFirst)
  · exact List.mem_append_right _ (List.getElem_mem inSecond)
  · have same := congrArg (fun nodes => nodes[index]?) levelEq
    simpa [level, inFirst, inSecond] using same

theorem CollisionFree.mono {combine : α → α → α} {small large : List (α × α)}
    (free : CollisionFree combine large)
    (subset : ∀ pair ∈ small, pair ∈ large) : CollisionFree combine small :=
  fun first inFirst second inSecond =>
    free first (subset first inFirst) second (subset second inSecond)

theorem reduce_injective {combine : α → α → α} (fuel : Nat)
    {first second : List α} (lengthEq : first.length = second.length)
    (injective : CollisionFree combine
      (combined combine fuel first ++ combined combine fuel second))
    (reduceEq : reduce combine fuel first = reduce combine fuel second) :
    first = second := by
  induction fuel generalizing first second with
  | zero => exact reduceEq
  | succ fuel ih =>
      by_cases single : first.length ≤ 1
      · have single' : second.length ≤ 1 := lengthEq ▸ single
        simpa [reduce, single, single'] using reduceEq
      · have many : ¬ second.length ≤ 1 := lengthEq ▸ single
        simp only [reduce, combined, single, many, if_false] at reduceEq injective
        apply level_injective lengthEq
        · apply injective.mono
          intro pair member
          simp only [List.mem_append] at member ⊢
          tauto
        · apply ih (by simp [lengthEq]) _ reduceEq
          apply injective.mono
          intro pair member
          simp only [List.mem_append] at member ⊢
          tauto

theorem length_reduce (combine : α → α → α) {fuel : Nat} {nodes : List α}
    (nonempty : 0 < nodes.length) (enough : nodes.length ≤ fuel) :
    (reduce combine fuel nodes).length = 1 := by
  induction fuel generalizing nodes with
  | zero => omega
  | succ fuel ih =>
      rw [reduce]
      split
      · omega
      · apply ih <;> rw [length_level] <;> omega

theorem root_injective {combine : α → α → α} {empty : α} {first second : List α}
    (nonempty : first ≠ []) (lengthEq : first.length = second.length)
    (injective : CollisionFree combine
      (preimages combine first ++ preimages combine second))
    (rootEq : root combine empty first = root combine empty second) :
    first = second := by
  have positive : 0 < first.length := List.length_pos_of_ne_nil nonempty
  have firstSingle := length_reduce combine positive le_rfl
  have secondSingle := length_reduce combine (lengthEq ▸ positive) le_rfl
  obtain ⟨top, firstTop⟩ := List.length_eq_one_iff.mp firstSingle
  obtain ⟨top', secondTop⟩ := List.length_eq_one_iff.mp secondSingle
  rw [root, root, firstTop, secondTop, List.headD_cons, List.headD_cons] at rootEq
  rw [preimages, preimages, ← lengthEq] at injective
  apply reduce_injective first.length lengthEq injective
  rw [firstTop, rootEq, ← secondTop, lengthEq]

end DuplicatingMerkle
