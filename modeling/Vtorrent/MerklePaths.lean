import Vtorrent.DuplicatingMerkle

/-!
# Paths through Merkle trees that duplicate the last node of odd levels

A path folds siblings onto a node, each on its own side.  A path that arrives at the root
of a tree may be of any length and may pass through a duplicated node.  When combining is
injective on the pairs in play, a path with one sibling for each level starts at a leaf,
and the sides of its siblings say which.  A shorter path starts at an inner node, and a
longer one passes a leaf that is itself combined from two nodes.
-/

namespace DuplicatingMerkle

variable {α : Type}

/-- A sibling on a path and the side it stands on. -/
structure ProofNode (α : Type) where
  hash : α
  isLeft : Bool
deriving DecidableEq

def ProofNode.pair (node : ProofNode α) (current : α) : α × α :=
  if node.isLeft then (node.hash, current) else (current, node.hash)

def climb (combine : α → α → α) (start : α) (path : List (ProofNode α)) : α :=
  path.foldl (fun current node =>
    if node.isLeft then combine node.hash current else combine current node.hash) start

def climbed (combine : α → α → α) : α → List (ProofNode α) → List (α × α)
  | _, [] => []
  | current, node :: rest =>
      node.pair current ::
        climbed combine (combine (node.pair current).1 (node.pair current).2) rest

/-- The leaf that the sides of a path lead down to, in a tree of the given number of
leaves; a side that leads to the copy of a lone last node leads to that node. -/
def position : Nat → List (ProofNode α) → Nat
  | _, [] => 0
  | count, node :: rest =>
      min (2 * position ((count + 1) / 2) rest + (if node.isLeft then 1 else 0)) (count - 1)

def levels (combine : α → α → α) : Nat → List α → List (List α)
  | 0, nodes => [nodes]
  | fuel + 1, nodes =>
      if nodes.length ≤ 1 then [nodes]
      else nodes :: levels combine fuel (level combine nodes)

def siblings (empty : α) : List (List α) → Nat → List (ProofNode α)
  | [], _ => []
  | nodes :: above, index =>
      { hash := nodes.getD
          (if index % 2 = 0 then min (index + 1) (nodes.length - 1) else index - 1) empty
        isLeft := index % 2 == 1 } :: siblings empty above (index / 2)

theorem climb_cons (combine : α → α → α) (start : α) (node : ProofNode α)
    (rest : List (ProofNode α)) :
    climb combine start (node :: rest) =
      climb combine (combine (node.pair start).1 (node.pair start).2) rest := by
  rw [climb, List.foldl_cons, climb, ProofNode.pair]
  split <;> rfl

theorem climb_append (combine : α → α → α) (start : α) (early late : List (ProofNode α)) :
    climb combine start (early ++ late) = climb combine (climb combine start early) late := by
  rw [climb, climb, climb, List.foldl_append]

theorem climbed_append (combine : α → α → α) (start : α)
    (early late : List (ProofNode α)) :
    climbed combine start (early ++ late) =
      climbed combine start early ++ climbed combine (climb combine start early) late := by
  induction early generalizing start with
  | nil => rfl
  | cons node rest ih =>
      rw [List.cons_append, climbed, climbed, ih, climb_cons, List.cons_append]

theorem climb_mem_climbed (combine : α → α → α) (start : α) {path : List (ProofNode α)}
    (moves : path ≠ []) :
    ∃ pair ∈ climbed combine start path, combine pair.1 pair.2 = climb combine start path := by
  induction path generalizing start with
  | nil => exact absurd rfl moves
  | cons node rest ih =>
      rw [climb_cons, climbed]
      by_cases last : rest = []
      · subst last
        exact ⟨_, List.mem_cons_self, rfl⟩
      · obtain ⟨pair, member, ends⟩ := ih (combine (node.pair start).1 (node.pair start).2) last
        exact ⟨pair, List.mem_cons_of_mem _ member, ends⟩

/-! ## Levels -/

theorem reduce_stable (combine : α → α → α) {fuel more : Nat} {nodes : List α}
    (enough : nodes.length ≤ fuel) (enoughToo : nodes.length ≤ more) :
    reduce combine fuel nodes = reduce combine more nodes := by
  induction fuel generalizing more nodes with
  | zero =>
      have none : nodes.length ≤ 1 := by omega
      cases more with
      | zero => rfl
      | succ more => rw [reduce, reduce, if_pos none]
  | succ fuel ih =>
      cases more with
      | zero =>
          have none : nodes.length ≤ 1 := by omega
          rw [reduce, reduce, if_pos none]
      | succ more =>
          rw [reduce, reduce]
          split
          · rfl
          · apply ih <;> rw [length_level] <;> omega

theorem combined_stable (combine : α → α → α) {fuel more : Nat} {nodes : List α}
    (enough : nodes.length ≤ fuel) (enoughToo : nodes.length ≤ more) :
    combined combine fuel nodes = combined combine more nodes := by
  induction fuel generalizing more nodes with
  | zero =>
      have none : nodes.length ≤ 1 := by omega
      cases more with
      | zero => rfl
      | succ more => rw [combined, combined, if_pos none]
  | succ fuel ih =>
      cases more with
      | zero =>
          have none : nodes.length ≤ 1 := by omega
          rw [combined, combined, if_pos none]
      | succ more =>
          rw [combined, combined]
          split
          · rfl
          · congr 1
            apply ih <;> rw [length_level] <;> omega

theorem root_level (combine : α → α → α) (empty : α) {nodes : List α}
    (several : 2 ≤ nodes.length) :
    root combine empty (level combine nodes) = root combine empty nodes := by
  have oneMore : nodes.length = (nodes.length - 1) + 1 := by omega
  have many : ¬ nodes.length ≤ 1 := by omega
  rw [root, root, oneMore, reduce, if_neg many]
  congr 1
  apply reduce_stable <;> simp only [length_level] <;> omega

theorem preimages_eq (combine : α → α → α) {nodes : List α}
    (several : 2 ≤ nodes.length) :
    preimages combine nodes = pairs nodes ++ preimages combine (level combine nodes) := by
  have oneMore : nodes.length = (nodes.length - 1) + 1 := by omega
  have many : ¬ nodes.length ≤ 1 := by omega
  rw [preimages, preimages, oneMore, combined, if_neg many]
  congr 1
  apply combined_stable <;> simp only [length_level] <;> omega

theorem root_singleton (combine : α → α → α) (empty leaf : α) :
    root combine empty [leaf] = leaf := rfl

theorem getElem?_of_pairs {nodes : List α} {index : Nat} {pair : α × α}
    (paired : (pairs nodes)[index]? = some pair) :
    nodes[2 * index]? = some pair.1 ∧
      nodes[min (2 * index + 1) (nodes.length - 1)]? = some pair.2 := by
  induction nodes using pairs.induct generalizing index with
  | case1 => simp [pairs] at paired
  | case2 last =>
      cases index with
      | zero =>
          simp only [pairs, List.getElem?_cons_zero, Option.some.injEq] at paired
          subst paired
          simp
      | succ index => simp [pairs] at paired
  | case3 first second rest ih =>
      cases index with
      | zero =>
          simp only [pairs, List.getElem?_cons_zero, Option.some.injEq] at paired
          subst paired
          simp
      | succ index =>
          obtain ⟨left, right⟩ := ih (by simpa [pairs] using paired)
          have leftPlace : 2 * (index + 1) = 2 * index + 2 := by omega
          have inRange : 2 * index < rest.length :=
            (List.getElem?_eq_some_iff.mp left).1
          have rightPlace : min (2 * (index + 1) + 1) ((first :: second :: rest).length - 1) =
              min (2 * index + 1) (rest.length - 1) + 2 := by
            simp only [List.length_cons]
            omega
          rw [rightPlace, leftPlace]
          simpa using And.intro left right

/-! ## Where a path starts -/

section Soundness

variable {combine : α → α → α} {empty : α} {nodes : List α} {start : α}
  {path : List (ProofNode α)}

/-- A path with one sibling for each level starts at the leaf its sides lead to. -/
theorem leaf_of_climb (nonempty : nodes ≠ [])
    (oneEach : path.length = Nat.clog 2 nodes.length)
    (free : CollisionFree combine (preimages combine nodes ++ climbed combine start path))
    (arrives : climb combine start path = root combine empty nodes) :
    nodes[position nodes.length path]? = some start := by
  induction path generalizing nodes start with
  | nil =>
      have single : nodes.length ≤ 1 := by
        by_contra several
        have := Nat.clog_pos one_lt_two (by omega : 2 ≤ nodes.length)
        rw [List.length_nil] at oneEach
        omega
      have positive := List.length_pos_of_ne_nil nonempty
      obtain ⟨leaf, rfl⟩ := List.length_eq_one_iff.mp (by omega : nodes.length = 1)
      rw [root_singleton] at arrives
      rw [← arrives]
      rfl
  | cons node rest ih =>
      have several : 2 ≤ nodes.length := by
        by_contra few
        rw [Nat.clog_of_right_le_one (by omega)] at oneEach
        simp at oneEach
      have restEach : rest.length = Nat.clog 2 (level combine nodes).length := by
        rw [Nat.clog_of_two_le (by omega) several] at oneEach
        simpa using oneEach
      have above : level combine nodes ≠ [] := by
        apply List.ne_nil_of_length_pos
        rw [length_level]
        omega
      rw [preimages_eq combine several, climbed] at free
      rw [climb_cons, ← root_level combine empty several] at arrives
      have parent := ih above restEach
        (free.mono (by simp only [List.mem_append, List.mem_cons]; tauto)) arrives
      rw [length_level, level, List.getElem?_map, Option.map_eq_some_iff] at parent
      obtain ⟨pair, paired, same⟩ := parent
      have pairEq : pair = node.pair start := by
        apply free _ _ _ _ same
        · have member := List.mem_of_getElem? paired
          simp only [List.mem_append]
          tauto
        · simp
      subst pairEq
      obtain ⟨left, right⟩ := getElem?_of_pairs paired
      have inRange := (List.getElem?_eq_some_iff.mp left).1
      rw [position]
      cases side : node.isLeft with
      | true => simpa [ProofNode.pair, side] using right
      | false =>
          have kept : min (2 * position ((nodes.length + 1) / 2) rest) (nodes.length - 1) =
              2 * position ((nodes.length + 1) / 2) rest := by omega
          simpa [ProofNode.pair, side, kept] using left

theorem inner_of_short_climb (short : path.length < Nat.clog 2 nodes.length)
    (free : CollisionFree combine (preimages combine nodes ++ climbed combine start path))
    (arrives : climb combine start path = root combine empty nodes) :
    ∃ pair ∈ preimages combine nodes, combine pair.1 pair.2 = start := by
  generalize depth : Nat.clog 2 nodes.length = height at short
  induction height generalizing nodes with
  | zero => omega
  | succ height ih =>
      have several : 2 ≤ nodes.length := by
        by_contra few
        rw [Nat.clog_of_right_le_one (by omega)] at depth
        omega
      have aboveDepth : Nat.clog 2 (level combine nodes).length = height := by
        rw [Nat.clog_of_two_le (by omega) several] at depth
        simpa using depth
      rw [preimages_eq combine several] at free ⊢
      rw [← root_level combine empty several] at arrives
      have aboveFree : CollisionFree combine
          (preimages combine (level combine nodes) ++ climbed combine start path) :=
        free.mono (by simp only [List.mem_append]; tauto)
      by_cases last : path.length = height
      · have above : level combine nodes ≠ [] := by
          apply List.ne_nil_of_length_pos
          rw [length_level]
          omega
        have node := leaf_of_climb above (last.trans aboveDepth.symm) aboveFree arrives
        obtain ⟨pair, member, same⟩ := List.mem_map.mp (List.mem_of_getElem? node)
        exact ⟨pair, List.mem_append_left _ member, same⟩
      · obtain ⟨pair, member, same⟩ := ih aboveFree arrives aboveDepth (by omega)
        exact ⟨pair, List.mem_append_right _ member, same⟩

/-- A path between ids that are not combined from pairs in play starts at the leaf its
sides lead to, whatever its length. -/
theorem leaf_of_any_climb (nonempty : nodes ≠ [])
    (free : CollisionFree combine (preimages combine nodes ++ climbed combine start path))
    (apart : ∀ pair ∈ preimages combine nodes ++ climbed combine start path,
      ∀ leaf ∈ start :: nodes, combine pair.1 pair.2 ≠ leaf)
    (arrives : climb combine start path = root combine empty nodes) :
    nodes[position nodes.length path]? = some start := by
  rcases Nat.lt_trichotomy path.length (Nat.clog 2 nodes.length) with short | even | long
  · obtain ⟨pair, member, same⟩ := inner_of_short_climb short free arrives
    exact absurd same (apart pair (List.mem_append_left _ member) start List.mem_cons_self)
  · exact leaf_of_climb nonempty even free arrives
  · obtain ⟨early, late, rfl, lateLength⟩ :
        ∃ early late, path = early ++ late ∧ late.length = Nat.clog 2 nodes.length := by
      refine ⟨path.take (path.length - Nat.clog 2 nodes.length),
        path.drop (path.length - Nat.clog 2 nodes.length), (List.take_append_drop _ _).symm, ?_⟩
      rw [List.length_drop]
      omega
    have moves : early ≠ [] := by
      rintro rfl
      simp only [List.nil_append] at long
      omega
    rw [climbed_append] at free apart
    rw [climb_append] at arrives
    have leaf := leaf_of_climb nonempty lateLength
      (free.mono (by simp only [List.mem_append]; tauto)) arrives
    obtain ⟨pair, member, same⟩ := climb_mem_climbed combine start moves
    exact absurd same (apart pair (by simp only [List.mem_append]; tauto) _
      (List.mem_cons_of_mem _ (List.mem_of_getElem? leaf)))

end Soundness

/-! ## The path of a leaf -/

theorem levels_ne_nil (combine : α → α → α) (fuel : Nat) (nodes : List α) :
    levels combine fuel nodes ≠ [] := by
  cases fuel with
  | zero => simp [levels]
  | succ fuel =>
      rw [levels]
      split <;> simp

theorem getLast?_levels (combine : α → α → α) (fuel : Nat) (nodes : List α) :
    (levels combine fuel nodes).getLast? = some (reduce combine fuel nodes) := by
  induction fuel generalizing nodes with
  | zero => rfl
  | succ fuel ih =>
      rw [levels, reduce]
      split
      · rfl
      · rw [List.getLast?_cons, ih, Option.getD_some]

theorem pairs_sibling (empty : α) {nodes : List α} {index : Nat} {leaf : α}
    (found : nodes[index]? = some leaf) (above : List (List α)) :
    ∃ node, siblings empty (nodes :: above) index = node :: siblings empty above (index / 2) ∧
      (pairs nodes)[index / 2]? = some (node.pair leaf) ∧
      node.isLeft = (index % 2 == 1) := by
  have inRange := (List.getElem?_eq_some_iff.mp found).1
  have parentInRange : index / 2 < (pairs nodes).length := by
    rw [length_pairs]
    omega
  have paired := List.getElem?_eq_getElem parentInRange
  obtain ⟨left, right⟩ := getElem?_of_pairs paired
  refine ⟨_, rfl, ?_, rfl⟩
  rw [paired, Option.some.injEq, ProofNode.pair, Prod.ext_iff]
  rcases Nat.mod_two_eq_zero_or_one index with even | odd
  · have leftPlace : 2 * (index / 2) = index := by omega
    rw [leftPlace] at left right
    rw [found, Option.some.injEq] at left
    simp [even, List.getD_eq_getElem?_getD, right, left]
  · have leftPlace : 2 * (index / 2) = index - 1 := by omega
    have rightPlace : min (2 * (index / 2) + 1) (nodes.length - 1) = index := by omega
    rw [rightPlace, found, Option.some.injEq] at right
    rw [leftPlace] at left
    simp [odd, List.getD_eq_getElem?_getD, right, left]

/-- The siblings of a leaf lead from it to the root, and their sides lead back to it. -/
theorem climb_siblings {combine : α → α → α} {empty : α} {fuel : Nat} {nodes : List α}
    {index : Nat} {leaf : α} (found : nodes[index]? = some leaf)
    (enough : nodes.length ≤ fuel) :
    climb combine leaf (siblings empty (levels combine fuel nodes).dropLast index) =
        (reduce combine fuel nodes).headD empty ∧
      position nodes.length (siblings empty (levels combine fuel nodes).dropLast index) =
        index := by
  induction fuel generalizing nodes index leaf with
  | zero =>
      have inRange := (List.getElem?_eq_some_iff.mp found).1
      omega
  | succ fuel ih =>
      have inRange := (List.getElem?_eq_some_iff.mp found).1
      rw [levels, reduce]
      by_cases single : nodes.length ≤ 1
      · obtain ⟨only, rfl⟩ := List.length_eq_one_iff.mp (by omega : nodes.length = 1)
        have first : index = 0 := by simpa using inRange
        subst first
        have same : only = leaf := by simpa using found
        rw [if_pos single, if_pos single, same]
        exact ⟨rfl, rfl⟩
      · rw [if_neg single, if_neg single,
          List.dropLast_cons_of_ne_nil (levels_ne_nil _ _ _)]
        obtain ⟨node, steps, paired, side⟩ := pairs_sibling empty found
          (levels combine fuel (level combine nodes)).dropLast
        have parent : (level combine nodes)[index / 2]? =
            some (combine (node.pair leaf).1 (node.pair leaf).2) := by
          rw [level, List.getElem?_map, paired, Option.map_some]
        obtain ⟨arrives, place⟩ := ih parent (by rw [length_level]; omega)
        rw [steps, climb_cons, arrives, position]
        rw [length_level] at place
        refine ⟨rfl, ?_⟩
        have bit : (if (index % 2 == 1) = true then 1 else 0) = index % 2 := by
          rcases Nat.mod_two_eq_zero_or_one index with even | odd
          · simp [even]
          · simp [odd]
        rw [place, side, bit]
        omega

end DuplicatingMerkle
