import Mathlib

/-!
# Descendants of a set under a relation

Removing a set of elements together with everything that descends from them, one
generation at a time.  After a generation is removed the relation shrinks to the elements
that are left, and the descendants of the next generation are taken in the smaller
relation.  The laws below say that this reaches the same set as the closure in the
original relation.
-/

namespace Lineages

open Relation

variable {α : Type*} {r s : α → α → Prop} {roots more removed : Set α}

def children (r : α → α → Prop) (roots : Set α) : Set α :=
  {child | ∃ root ∈ roots, r root child}

/-- The elements reached from some root in one or more steps. -/
def heirs (r : α → α → Prop) (roots : Set α) : Set α :=
  {heir | ∃ root ∈ roots, TransGen r root heir}

def lineage (r : α → α → Prop) (roots : Set α) : Set α :=
  roots ∪ heirs r roots

/-- The relation among the elements that are left. -/
def outside (r : α → α → Prop) (removed : Set α) (first second : α) : Prop :=
  r first second ∧ second ∉ removed

theorem outside_le (first second : α) (step : outside r removed first second) :
    r first second :=
  step.1

theorem subset_lineage : roots ⊆ lineage r roots := Set.subset_union_left

theorem lineage_subset {closed : Set α} (within : roots ⊆ closed)
    (step : ∀ first ∈ closed, ∀ second, r first second → second ∈ closed) :
    lineage r roots ⊆ closed := by
  rintro element (isRoot | ⟨root, isRoot, path⟩)
  · exact within isRoot
  · induction path with
    | single only => exact step root (within isRoot) _ only
    | tail _ last ih => exact step _ ih _ last

theorem lineage_closed {first second : α} (member : first ∈ lineage r roots)
    (step : r first second) : second ∈ lineage r roots := by
  rcases member with isRoot | ⟨root, isRoot, path⟩
  · exact .inr ⟨first, isRoot, .single step⟩
  · exact .inr ⟨root, isRoot, path.tail step⟩

theorem lineage_mono (weaker : ∀ first second, r first second → s first second)
    (within : roots ⊆ more) : lineage r roots ⊆ lineage s more :=
  lineage_subset (within.trans subset_lineage) fun _ member _ step =>
    lineage_closed member (weaker _ _ step)

theorem heirs_eq_lineage_children : heirs r roots = lineage r (children r roots) := by
  apply Set.Subset.antisymm
  · rintro element ⟨root, isRoot, path⟩
    induction path with
    | single only => exact subset_lineage ⟨root, isRoot, only⟩
    | tail _ last ih => exact lineage_closed ih last
  · refine lineage_subset ?_ ?_
    · rintro child ⟨root, isRoot, step⟩
      exact ⟨root, isRoot, .single step⟩
    · rintro first ⟨root, isRoot, path⟩ second step
      exact ⟨root, isRoot, path.tail step⟩

/-- Once the roots are removed, their heirs can be found among what is left. -/
theorem union_heirs_outside : roots ∪ heirs (outside r roots) roots = lineage r roots := by
  apply Set.Subset.antisymm
  · exact lineage_mono outside_le subset_rfl
  · refine lineage_subset Set.subset_union_left fun first member second step => ?_
    by_cases isRoot : second ∈ roots
    · exact .inl isRoot
    · exact lineage_closed (r := outside r roots) member ⟨step, isRoot⟩

/-- Once a lineage is removed, the lineage of further roots can be found among what is
left. -/
theorem lineage_union_outside :
    lineage r roots ∪ lineage (outside r (lineage r roots)) more = lineage r (roots ∪ more) := by
  apply Set.Subset.antisymm
  · exact Set.union_subset (lineage_mono (fun _ _ step => step) Set.subset_union_left)
      (lineage_mono outside_le Set.subset_union_right)
  · refine lineage_subset (Set.union_subset_union subset_lineage subset_lineage) ?_
    intro first member second step
    by_cases gone : second ∈ lineage r roots
    · exact .inl gone
    · rcases member with earlier | left
      · exact absurd (lineage_closed earlier step) gone
      · exact .inr (lineage_closed left ⟨step, gone⟩)

end Lineages
