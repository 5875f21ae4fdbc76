import Mathlib

/-!
# Matching a list against a list in order

Every wanted element is matched with an offered one, later wanted elements with later
offered ones.  Taking the first offered element that fits is always a best choice, and an
ordered matching is the same as an order embedding of the positions.
-/

namespace OrderedMatching

variable {α β : Type*} {fits : α → β → Prop}

/-- The wanted elements fit a sublist of the offered ones, position by position. -/
def Assignable (fits : α → β → Prop) (wanted : List α) (offered : List β) : Prop :=
  ∃ chosen, chosen.Sublist offered ∧ List.Forall₂ fits wanted chosen

theorem assignable_nil (offered : List β) : Assignable fits [] offered :=
  ⟨[], List.nil_sublist offered, .nil⟩

theorem not_assignable_of_nil (first : α) (wanted : List α) :
    ¬ Assignable fits (first :: wanted) [] := by
  rintro ⟨chosen, sublist, matched⟩
  rw [List.sublist_nil] at sublist
  subst sublist
  cases matched

theorem assignable_skip {first : α} {wanted : List α} {offer : β} {offered : List β}
    (unfit : ¬ fits first offer) :
    Assignable fits (first :: wanted) (offer :: offered) ↔
      Assignable fits (first :: wanted) offered := by
  constructor
  · rintro ⟨chosen, sublist, matched⟩
    cases sublist with
    | cons _ inner => exact ⟨chosen, inner, matched⟩
    | cons_cons _ inner =>
        cases matched with
        | cons fit _ => exact absurd fit unfit
  · rintro ⟨chosen, sublist, matched⟩
    exact ⟨chosen, sublist.cons offer, matched⟩

theorem assignable_take {first : α} {wanted : List α} {offer : β} {offered : List β}
    (fit : fits first offer) :
    Assignable fits (first :: wanted) (offer :: offered) ↔
      Assignable fits wanted offered := by
  constructor
  · rintro ⟨chosen, sublist, matched⟩
    cases matched with
    | cons _ others =>
        refine ⟨_, ?_, others⟩
        cases sublist with
        | cons _ inner => exact (List.sublist_cons_self _ _).trans inner
        | cons_cons _ inner => exact inner
  · rintro ⟨chosen, sublist, matched⟩
    exact ⟨offer :: chosen, sublist.cons_cons offer, .cons fit matched⟩

theorem Assignable.length_le {wanted : List α} {offered : List β}
    (assignable : Assignable fits wanted offered) : wanted.length ≤ offered.length := by
  obtain ⟨chosen, sublist, matched⟩ := assignable
  rw [matched.length_eq]
  exact sublist.length_le

/-- Reading both lists backwards does not change what can be matched. -/
theorem assignable_reverse {wanted : List α} {offered : List β} :
    Assignable fits wanted.reverse offered.reverse ↔ Assignable fits wanted offered := by
  have backwards : ∀ (wanted : List α) (offered : List β), Assignable fits wanted offered →
      Assignable fits wanted.reverse offered.reverse := by
    rintro wanted offered ⟨chosen, sublist, matched⟩
    exact ⟨chosen.reverse, sublist.reverse, List.forall₂_reverse_iff.mpr matched⟩
  refine ⟨fun assignable => ?_, backwards wanted offered⟩
  simpa using backwards _ _ assignable

theorem assignable_iff_exists_orderEmbedding {wanted : List α} {offered : List β} :
    Assignable fits wanted offered ↔
      ∃ assignment : Fin wanted.length ↪o Fin offered.length,
        ∀ position, fits (wanted.get position) (offered.get (assignment position)) := by
  constructor
  · rintro ⟨chosen, sublist, matched⟩
    obtain ⟨embedding, reads⟩ :=
      List.sublist_iff_exists_fin_orderEmbedding_get_eq.mp sublist
    have lengths := matched.length_eq
    refine ⟨(Fin.castOrderIso lengths).toOrderEmbedding.trans embedding, fun position => ?_⟩
    have fit := matched.get position.isLt (lengths ▸ position.isLt)
    rw [List.get_eq_getElem] at fit
    have read := reads ⟨position, lengths ▸ position.isLt⟩
    rw [RelEmbedding.coe_trans, Function.comp_apply]
    exact read ▸ fit
  · rintro ⟨assignment, fit⟩
    refine ⟨List.ofFn fun position => offered.get (assignment position), ?_, ?_⟩
    · rw [List.sublist_iff_exists_fin_orderEmbedding_get_eq]
      exact ⟨(Fin.castOrderIso (List.length_ofFn)).toOrderEmbedding.trans assignment,
        fun position => by simp; rfl⟩
    · rw [List.forall₂_iff_get]
      refine ⟨by simp, fun index below _ => ?_⟩
      simpa using fit ⟨index, below⟩

end OrderedMatching
