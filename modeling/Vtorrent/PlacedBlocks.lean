import Vtorrent.ListWindows

/-!
# Blocks placed on a line

A block is a list of items with the place of its first item.  Blocks that do not overlap and
lie in ascending order up to some place hold at most as many items as there are places; when
they hold as many, they leave no gap and their concatenation has every block at its own place.
-/

namespace PlacedBlocks

open ListWindow

variable {α : Type}

def Contains (block : Nat × List α) (place : Nat) : Prop :=
  block.1 ≤ place ∧ place < block.1 + block.2.length

/-- Two blocks do not overlap. -/
def Apart (first second : Nat × List α) : Prop :=
  first.1 + first.2.length ≤ second.1 ∨ second.1 + second.2.length ≤ first.1

theorem Apart.symm {first second : Nat × List α} (apart : Apart first second) :
    Apart second first :=
  Or.symm apart

def Ascending : Nat → Nat → List (Nat × List α) → Prop
  | start, stop, [] => start ≤ stop
  | start, stop, block :: blocks =>
      start ≤ block.1 ∧ Ascending (block.1 + block.2.length) stop blocks

def joined (blocks : List (Nat × List α)) : List α := blocks.flatMap Prod.snd

theorem joined_cons (block : Nat × List α) (blocks : List (Nat × List α)) :
    joined (block :: blocks) = block.2 ++ joined blocks :=
  List.flatMap_cons

theorem length_joined (blocks : List (Nat × List α)) :
    (joined blocks).length = (blocks.map fun block => block.2.length).sum := by
  rw [joined, List.length_flatMap]

theorem ascending_of_pairwise {start stop : Nat} {blocks : List (Nat × List α)}
    (order : start ≤ stop) (sorted : blocks.Pairwise fun first second => first.1 < second.1)
    (apart : blocks.Pairwise Apart)
    (bounded : ∀ block ∈ blocks, start ≤ block.1 ∧ block.1 + block.2.length ≤ stop) :
    Ascending start stop blocks := by
  induction blocks generalizing start with
  | nil => exact order
  | cons block blocks ih =>
      obtain ⟨later, sorted⟩ := List.pairwise_cons.mp sorted
      obtain ⟨separate, apart⟩ := List.pairwise_cons.mp apart
      have first := bounded block List.mem_cons_self
      refine ⟨first.1, ih first.2 sorted apart ?_⟩
      intro other member
      refine ⟨?_, (bounded other (List.mem_cons_of_mem _ member)).2⟩
      rcases separate other member with before | behind
      · exact before
      · have := later other member
        omega

section Ascending

variable {start stop : Nat} {blocks : List (Nat × List α)}

theorem Ascending.length_joined_le (ascending : Ascending start stop blocks) :
    start + (joined blocks).length ≤ stop := by
  induction blocks generalizing start with
  | nil => exact ascending
  | cons block blocks ih =>
      have rest := ih ascending.2
      have first := ascending.1
      rw [joined_cons, List.length_append]
      omega

theorem Ascending.start_le (ascending : Ascending start stop blocks) :
    ∀ block ∈ blocks, start ≤ block.1 := by
  induction blocks generalizing start with
  | nil => simp
  | cons block blocks ih =>
      intro other member
      rcases List.mem_cons.mp member with rfl | member
      · exact ascending.1
      · have := ih ascending.2 other member
        have := ascending.1
        omega

/-- When the items fill the places, every block stands at its own place. -/
theorem Ascending.window_joined (ascending : Ascending start stop blocks)
    (full : stop ≤ start + (joined blocks).length) :
    ∀ block ∈ blocks,
      window (block.1 - start) (block.1 + block.2.length - start) (joined blocks) = block.2 := by
  induction blocks generalizing start with
  | nil => simp
  | cons head blocks ih =>
      have bound := ascending.2.length_joined_le
      have first := ascending.1
      rw [joined_cons, List.length_append] at full
      obtain rfl : start = head.1 := by omega
      intro block member
      rw [joined_cons, window_append]
      rcases List.mem_cons.mp member with rfl | member
      · rw [Nat.sub_self, Nat.add_sub_cancel_left, window_zero le_rfl, window_of_le (by omega),
          List.append_nil]
      · have behind := ascending.2.start_le block member
        rw [window_of_length_le (by omega), List.nil_append, Nat.sub_sub, Nat.sub_sub]
        exact ih ascending.2 (by omega) block member

theorem Ascending.covers (ascending : Ascending start stop blocks)
    (full : stop ≤ start + (joined blocks).length) {place : Nat} (first : start ≤ place)
    (last : place < stop) : ∃ block ∈ blocks, Contains block place := by
  induction blocks generalizing start with
  | nil =>
      simp only [joined, List.flatMap_nil, List.length_nil] at full
      omega
  | cons head blocks ih =>
      have bound := ascending.2.length_joined_le
      have order := ascending.1
      rw [joined_cons, List.length_append] at full
      by_cases inside : place < head.1 + head.2.length
      · exact ⟨head, List.mem_cons_self, by omega, inside⟩
      · obtain ⟨block, member, contains⟩ := ih ascending.2 (by omega) (by omega)
        exact ⟨block, List.mem_cons_of_mem _ member, contains⟩

theorem Ascending.full_of_covers (ascending : Ascending start stop blocks)
    (covers : ∀ place, start ≤ place → place < stop → ∃ block ∈ blocks, Contains block place) :
    stop ≤ start + (joined blocks).length := by
  induction blocks generalizing start with
  | nil =>
      by_contra gap
      obtain ⟨block, member, -⟩ := covers start le_rfl (by
        simp only [joined, List.flatMap_nil, List.length_nil] at gap
        omega)
      cases member
  | cons head blocks ih =>
      have order := ascending.1
      rw [joined_cons, List.length_append]
      by_cases done : stop ≤ start
      · omega
      · have least := (show Ascending head.1 stop (head :: blocks) from
          ⟨le_rfl, ascending.2⟩).start_le
        obtain ⟨block, member, lower, -⟩ := covers start le_rfl (by omega)
        have reached := least block member
        have rest := ih ascending.2 (by
          intro place first last
          obtain ⟨block, member, contains⟩ := covers place (by omega) last
          rcases List.mem_cons.mp member with rfl | member
          · have := contains.2
            omega
          · exact ⟨block, member, contains⟩)
        omega

end Ascending

end PlacedBlocks
