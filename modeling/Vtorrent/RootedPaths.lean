import Mathlib

/-!
# Paths from a root along parent links

A tree can be kept as a partial function from a node to its parent.  The path of
a node runs from the root down to it, and a node determines its path, so two
paths share a first part and have no node in common after it.
-/

namespace RootedPaths

variable {Node : Type*}

inductive Path (root : Node) (parent : Node → Option Node) : Node → List Node → Prop
  | root : Path root parent root [root]
  | child {node above : Node} {path : List Node} (linked : parent node = some above)
      (earlier : Path root parent above path) :
      Path root parent node (path ++ [node])

namespace Path

variable {root node : Node} {parent : Node → Option Node} {path : List Node}

theorem ne_nil (whole : Path root parent node path) : path ≠ [] := by
  cases whole <;> simp

theorem getLast? (whole : Path root parent node path) :
    path.getLast? = some node := by
  cases whole <;> simp

theorem head? (whole : Path root parent node path) :
    path.head? = some root := by
  induction whole with
  | root => rfl
  | child linked earlier ih => simp [List.head?_append, ih]

theorem root_mem (whole : Path root parent node path) : root ∈ path :=
  List.mem_of_head? whole.head?

theorem linked_of_mem (whole : Path root parent node path) {key : Node}
    (member : key ∈ path.tail) : (parent key).isSome = true := by
  induction whole with
  | root => simp at member
  | child linked earlier ih =>
      rw [List.tail_append_of_ne_nil earlier.ne_nil, List.mem_append] at member
      rcases member with before | last
      · exact ih before
      · rw [List.mem_singleton.mp last, linked]
        rfl

theorem last_child {last : Node} (whole : Path root parent node (path ++ [last]))
    (nonempty : path ≠ []) :
    last = node ∧ ∃ above, parent node = some above ∧ Path root parent above path := by
  generalize same : path ++ [last] = all at whole
  cases whole with
  | root =>
      have lengths := congrArg List.length same
      rw [List.length_append, List.length_singleton, List.length_singleton] at lengths
      have positive := List.length_pos_iff.mpr nonempty
      omega
  | child linked earlier =>
      obtain ⟨rfl, sameLast⟩ := List.append_inj' same rfl
      exact ⟨by simpa using sameLast, _, linked, earlier⟩

theorem of_append {before after : List Node} {key : Node}
    (whole : Path root parent node (before ++ key :: after)) :
    Path root parent key (before ++ [key]) := by
  induction after using List.reverseRecOn generalizing node with
  | nil =>
      have last := whole.getLast?
      obtain rfl : key = node := by simpa using last
      exact whole
  | append_singleton after last ih =>
      have regrouped : before ++ key :: (after ++ [last]) =
          (before ++ key :: after) ++ [last] := by simp
      rw [regrouped] at whole
      obtain ⟨-, above, -, earlier⟩ := whole.last_child (by simp)
      exact ih earlier

theorem of_isChain {rest : List Node}
    (linked : (root :: rest).IsChain fun above below => parent below = some above)
    (ends : (root :: rest).getLast? = some node) : Path root parent node (root :: rest) := by
  induction rest using List.reverseRecOn generalizing node with
  | nil =>
      obtain rfl : root = node := by simpa using ends
      exact .root
  | append_singleton rest last ih =>
      rw [← List.cons_append] at linked ends ⊢
      obtain ⟨earlier, -, link⟩ := List.isChain_append.mp linked
      rw [List.getLast?_concat, Option.some_inj] at ends
      subst ends
      cases above : (root :: rest).getLast? with
      | none => simp at above
      | some previous => exact .child (link previous above last rfl) (ih earlier above)

section Unique

variable (top : parent root = none)

include top

theorem unique {path' : List Node} (first : Path root parent node path)
    (second : Path root parent node path') : path = path' := by
  induction first generalizing path' with
  | root =>
      cases second with
      | root => rfl
      | child linked earlier => simp [top] at linked
  | child linked earlier ih =>
      cases second with
      | root => simp [top] at linked
      | child linked' earlier' =>
          rw [linked] at linked'
          cases linked'
          rw [ih earlier']

theorem nodup (whole : Path root parent node path) : path.Nodup := by
  induction whole with
  | root => simp
  | @child node above path linked earlier ih =>
      refine List.nodup_append.mpr ⟨ih, by simp, ?_⟩
      rintro key member _ last rfl
      obtain rfl : key = node := by simpa using last
      obtain ⟨before, after, rfl⟩ := List.append_of_mem member
      have shorter := earlier.of_append.unique top (.child linked earlier)
      have lengths := congrArg List.length shorter
      simp at lengths

/-- Two paths run together up to the last node of the first that lies on the
second, and the first never meets the second again. -/
theorem fork {node' : Node} {path' : List Node} (first : Path root parent node path)
    (second : Path root parent node' path') :
    ∃ common old new, path = common ++ old ∧ path' = common ++ new ∧
      common ≠ [] ∧ ∀ key ∈ old, key ∉ path' := by
  by_cases met : node ∈ path'
  · obtain ⟨before, after, rfl⟩ := List.append_of_mem met
    have same := first.unique top second.of_append
    exact ⟨path, [], after, by simp, by simp [same], first.ne_nil, by simp⟩
  · induction first with
    | root => exact absurd second.root_mem met
    | @child node above path linked earlier ih =>
        by_cases metAbove : above ∈ path'
        · obtain ⟨before, after, rfl⟩ := List.append_of_mem metAbove
          have same := earlier.unique top second.of_append
          exact ⟨path, [node], after, rfl, by simp [same], earlier.ne_nil,
            by simpa using met⟩
        · obtain ⟨common, old, new, rfl, split, nonempty, apart⟩ := ih metAbove
          refine ⟨common, old ++ [node], new, by simp, split, nonempty, ?_⟩
          intro key member
          rcases List.mem_append.mp member with before | last
          · exact apart key before
          · rw [List.mem_singleton.mp last]
            exact met

end Unique

theorem congr {parent' : Node → Option Node} (whole : Path root parent node path)
    (same : ∀ key ∈ path, parent' key = parent key) : Path root parent' node path := by
  induction whole with
  | root => exact .root
  | child linked earlier ih =>
      refine .child (by rw [same _ (by simp), linked]) (ih ?_)
      intro key member
      exact same key (List.mem_append_left _ member)

end Path

/-- The first node, seen from the tip, that two forked paths share. -/
theorem find?_reverse_append [DecidableEq Node] {common old path' : List Node}
    {last : Node} (ends : common.getLast? = some last)
    (apart : ∀ key ∈ old, key ∉ path') (shared : last ∈ path') :
    ((common ++ old).reverse.find? fun key => path'.contains key) = some last := by
  rw [List.reverse_append, List.find?_append]
  have missed : (old.reverse.find? fun key => path'.contains key) = none := by
    rw [List.find?_eq_none]
    intro key member
    simpa using apart key (List.mem_reverse.mp member)
  obtain ⟨before, rfl⟩ := List.getLast?_eq_some_iff.mp ends
  rw [missed, List.reverse_append]
  simp [shared]

end RootedPaths
