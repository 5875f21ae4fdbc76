import Mathlib

/-!
# Merging an overlay into an ordered list

An overlay of changed entries is merged into the ordered entries of a finite map in one
pass.  Entries of the overlay go before, in the place of, or after the entries of the base,
and dropped entries of the base are left out.  The result lists the map that has the
changes applied.
-/

namespace OverlayMerge

open Std

variable {κ ν μ : Type*} [Ord κ]

def below (key : κ) (entry : κ × ν) : Bool := compare entry.1 key == .lt

/-- One pass over the base; the overlay is consumed along the way. -/
def merge (dropped : κ → Bool) : List (κ × ν) → List (κ × ν) → List (κ × ν)
  | [], overlay => overlay
  | entry :: base, overlay =>
      overlay.takeWhile (below entry.1) ++
        match overlay.dropWhile (below entry.1) with
        | [] => (if dropped entry.1 then [] else [entry]) ++ merge dropped base []
        | next :: rest =>
            if compare next.1 entry.1 = .eq then next :: merge dropped base rest
            else (if dropped entry.1 then [] else [entry]) ++
              merge dropped base (next :: rest)

theorem merge_map (dropped : κ → Bool) (image : ν → μ) (base overlay : List (κ × ν)) :
    merge dropped (base.map (Prod.map id image)) (overlay.map (Prod.map id image)) =
      (merge dropped base overlay).map (Prod.map id image) := by
  induction base generalizing overlay with
  | nil => rfl
  | cons entry base ih =>
      have same : (below entry.1 : κ × μ → Bool) ∘ Prod.map id image = below entry.1 := rfl
      simp only [List.map_cons, merge, Prod.map_fst, id, List.takeWhile_map,
        List.dropWhile_map, same, List.map_append]
      congr 1
      cases overlay.dropWhile (below entry.1) with
      | nil =>
          have rest := ih []
          simp only [List.map_nil] at rest ⊢
          rw [rest]
          split <;> simp
      | cons next rest =>
          simp only [List.map_cons, Prod.map_fst, id]
          split
          · simp [ih]
          · have rest := ih (next :: rest)
            rw [List.map_cons] at rest
            rw [rest]
            split <;> simp

/-- The entries are in strictly increasing order of their keys. -/
abbrev Increasing (entries : List (κ × ν)) : Prop :=
  entries.Pairwise fun first second => compare first.1 second.1 = .lt

section Ordered

variable [TransOrd κ] [LawfulEqOrd κ] {dropped : κ → Bool} {entry : κ × ν}
  {base overlay : List (κ × ν)}

/-- An ordered overlay around a key: entries below it, perhaps one at it, entries
above it. -/
structure Around (key : κ) (overlay earlier : List (κ × ν)) (here : Option ν)
    (later : List (κ × ν)) : Prop where
  parts : overlay = earlier ++ (here.toList.map (key, ·) ++ later)
  lower : ∀ entry ∈ earlier, compare entry.1 key = .lt
  upper : ∀ entry ∈ later, compare key entry.1 = .lt

/-- What the merge puts at the key of a base entry. -/
def chosen (dropped : κ → Bool) (entry : κ × ν) : Option ν → List (κ × ν)
  | some value => [(entry.1, value)]
  | none => if dropped entry.1 then [] else [entry]

omit [TransOrd κ] in
theorem ne_of_lt {first second : κ} (less : compare first second = .lt) :
    first ≠ second := by
  rintro rfl
  rw [ReflOrd.compare_self] at less
  cases less

theorem merge_cons (dropped : κ → Bool) (entry : κ × ν) (base : List (κ × ν))
    (increasing : Increasing overlay) :
    ∃ earlier here later, Around entry.1 overlay earlier here later ∧
      merge dropped (entry :: base) overlay =
        earlier ++ (chosen dropped entry here ++ merge dropped base later) := by
  have split : overlay.takeWhile (below entry.1) ++ overlay.dropWhile (below entry.1) =
    overlay := List.takeWhile_append_dropWhile
  have lower : ∀ other ∈ overlay.takeWhile (below entry.1),
      compare other.1 entry.1 = .lt := by
    intro other member
    simpa [below] using List.mem_takeWhile_imp member
  have ordered : Increasing (overlay.dropWhile (below entry.1)) :=
    increasing.sublist (List.dropWhile_sublist _)
  have stops := List.head?_dropWhile_not (below entry.1) overlay
  cases rest : overlay.dropWhile (below entry.1) with
  | nil =>
      rw [rest] at split
      exact ⟨_, none, [], ⟨by simpa using split.symm, lower, by simp⟩,
        by simp [merge, rest, chosen]⟩
  | cons next later =>
      rw [rest] at split ordered stops
      have smallest := (List.pairwise_cons.mp ordered).1
      cases order : compare next.1 entry.1 with
      | lt => simp [below, order] at stops
      | eq =>
          have same := LawfulEqOrd.eq_of_compare order
          have whole : (entry.1, next.2) = next := by rw [← same]
          refine ⟨_, some next.2, later, ⟨?_, lower, ?_⟩, ?_⟩
          · simpa [whole] using split.symm
          · intro other member
            exact same ▸ smallest other member
          · simp [merge, rest, order, chosen, whole]
      | gt =>
          have above : compare entry.1 next.1 = .lt := OrientedCmp.lt_of_gt order
          refine ⟨_, none, next :: later, ⟨by simpa using split.symm, lower, ?_⟩, ?_⟩
          · intro other member
            rcases List.mem_cons.mp member with rfl | beyond
            · exact above
            · exact TransCmp.lt_trans above (smallest other beyond)
          · simp [merge, rest, order, chosen]

theorem mem_merge (baseIncreasing : Increasing base) (increasing : Increasing overlay)
    {other : κ × ν} :
    other ∈ merge dropped base overlay ↔
      other ∈ overlay ∨ other ∈ base ∧ dropped other.1 = false ∧
        ∀ changed ∈ overlay, changed.1 ≠ other.1 := by
  induction base generalizing overlay with
  | nil => simp [merge]
  | cons entry base ih =>
      obtain ⟨smallest, baseIncreasing⟩ := List.pairwise_cons.mp baseIncreasing
      obtain ⟨earlier, here, later, around, merged⟩ := merge_cons dropped entry base increasing
      have laterIncreasing : Increasing later := by
        rw [around.parts] at increasing
        exact (List.pairwise_append.mp (List.pairwise_append.mp increasing).2.1).2.1
      have below : ∀ changed ∈ earlier, changed.1 ≠ entry.1 :=
        fun changed member => ne_of_lt (around.lower changed member)
      have above : ∀ changed ∈ later, changed.1 ≠ entry.1 :=
        fun changed member => (ne_of_lt (around.upper changed member)).symm
      have beyond : ∀ held ∈ base, held.1 ≠ entry.1 :=
        fun held member => (ne_of_lt (smallest held member)).symm
      have apart : ∀ held ∈ base, ∀ changed ∈ earlier, changed.1 ≠ held.1 :=
        fun held inBase changed member =>
          ne_of_lt (TransCmp.lt_trans (around.lower changed member) (smallest held inBase))
      rw [merged, List.mem_append, List.mem_append, ih baseIncreasing laterIncreasing,
        around.parts]
      clear ih merged around
      cases here with
      | none =>
          simp only [chosen, Option.toList_none, List.map_nil, List.nil_append,
            List.mem_append, List.mem_cons, or_imp, forall_and]
          constructor
          · rintro (inEarlier | here | inLater | ⟨held, kept, unchanged⟩)
            · exact .inl (.inl inEarlier)
            · cases drops : dropped entry.1 with
              | true => simp [drops] at here
              | false =>
                  obtain rfl : other = entry := by simpa [drops] using here
                  exact .inr ⟨.inl rfl, drops, below, above⟩
            · exact .inl (.inr inLater)
            · exact .inr ⟨.inr held, kept, apart other held, unchanged⟩
          · rintro ((inEarlier | inLater) | ⟨rfl | held, kept, -, unchanged⟩)
            · exact .inl inEarlier
            · exact .inr (.inr (.inl inLater))
            · exact .inr (.inl (by simp [kept]))
            · exact .inr (.inr (.inr ⟨held, kept, unchanged⟩))
      | some value =>
          simp only [chosen, Option.toList_some, List.map_cons, List.map_nil,
            List.mem_append, List.mem_cons, List.not_mem_nil, or_false, or_imp, forall_and,
            forall_eq]
          constructor
          · rintro (inEarlier | rfl | inLater | ⟨held, kept, unchanged⟩)
            · exact .inl (.inl inEarlier)
            · exact .inl (.inr (.inl rfl))
            · exact .inl (.inr (.inr inLater))
            · exact .inr ⟨.inr held, kept, apart other held, (beyond other held).symm,
                unchanged⟩
          · rintro ((inEarlier | rfl | inLater) | ⟨rfl | held, kept, -, here, unchanged⟩)
            · exact .inl inEarlier
            · exact .inr (.inl rfl)
            · exact .inr (.inr (.inl inLater))
            · exact absurd rfl here
            · exact .inr (.inr (.inr ⟨held, kept, unchanged⟩))

theorem increasing_merge (baseIncreasing : Increasing base)
    (increasing : Increasing overlay) : Increasing (merge dropped base overlay) := by
  induction base generalizing overlay with
  | nil => exact increasing
  | cons entry base ih =>
      obtain ⟨smallest, baseIncreasing⟩ := List.pairwise_cons.mp baseIncreasing
      obtain ⟨earlier, here, later, around, merged⟩ := merge_cons dropped entry base increasing
      rw [around.parts, Increasing, List.pairwise_append, List.pairwise_append] at increasing
      obtain ⟨earlierIncreasing, ⟨-, laterIncreasing, -⟩, -⟩ := increasing
      have upper : ∀ other ∈ merge dropped base later, compare entry.1 other.1 = .lt := by
        intro other member
        rcases (mem_merge baseIncreasing laterIncreasing).mp member with changed | ⟨held, -⟩
        · exact around.upper other changed
        · exact smallest other held
      have middle : ∀ other ∈ chosen dropped entry here, other.1 = entry.1 := by
        intro other member
        unfold chosen at member
        grind
      have single : Increasing (chosen dropped entry here) := by
        unfold chosen
        grind
      rw [merged, Increasing, List.pairwise_append, List.pairwise_append]
      refine ⟨earlierIncreasing, ⟨single, ih baseIncreasing laterIncreasing, ?_⟩, ?_⟩
      · intro first firstMember second secondMember
        rw [middle first firstMember]
        exact upper second secondMember
      · intro first firstMember second secondMember
        rcases List.mem_append.mp secondMember with inHere | beyond
        · rw [middle second inHere]
          exact around.lower first firstMember
        · exact TransCmp.lt_trans (around.lower first firstMember)
            (upper second beyond)

theorem merge_toList {base overlay result : ExtTreeMap κ ν} (dropped : κ → Bool)
    (reads : ∀ key : κ, result[key]? =
      (overlay[key]?).or (if dropped key then none else base[key]?)) :
    merge dropped base.toList overlay.toList = result.toList := by
  have merged : Increasing (merge dropped base.toList overlay.toList) :=
    increasing_merge base.ordered_keys_toList overlay.ordered_keys_toList
  have listed : Increasing result.toList := result.ordered_keys_toList
  have distinct : ∀ entries : List (κ × ν), Increasing entries → entries.Nodup :=
    fun entries increasing => increasing.imp fun less same => ne_of_lt less (congrArg _ same)
  have perm : (merge dropped base.toList overlay.toList).Perm result.toList := by
    apply (List.perm_ext_iff_of_nodup (distinct _ merged) (distinct _ listed)).mpr
    rintro ⟨key, value⟩
    have unchanged : (∀ changed ∈ overlay.toList, changed.1 ≠ key) ↔
        overlay[key]? = none := by
      constructor
      · intro absent
        by_contra held
        obtain ⟨other, held⟩ := Option.ne_none_iff_exists'.mp held
        exact absent (key, other) (ExtTreeMap.mem_toList_iff_getElem?_eq_some.mpr held) rfl
      · rintro absent ⟨_, other⟩ member rfl
        rw [ExtTreeMap.mem_toList_iff_getElem?_eq_some.mp member] at absent
        cases absent
    rw [mem_merge base.ordered_keys_toList overlay.ordered_keys_toList,
      ExtTreeMap.mem_toList_iff_getElem?_eq_some, ExtTreeMap.mem_toList_iff_getElem?_eq_some,
      ExtTreeMap.mem_toList_iff_getElem?_eq_some, reads, unchanged]
    cases overlay[key]? <;> cases dropped key <;> simp
  exact perm.eq_of_pairwise (fun first second _ _ less greater => by
    have gt : compare first.1 second.1 = .gt := OrientedCmp.gt_of_lt greater
    rw [gt] at less
    cases less) merged listed

end Ordered

end OverlayMerge
