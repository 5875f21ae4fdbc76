import Mathlib

/-!
# Folding updates that each touch one key

A list of recorded changes is applied to a finite map one after another.  When
every change touches a single key and no key occurs twice, the value at a key
after the whole fold is decided by the one change that mentions it.
-/

namespace KeyedUpdates

open Std

variable {κ ν δ : Type*} [Ord κ] [TransOrd κ] [DecidableEq κ]

structure TouchesKey (step : ExtTreeMap κ ν → δ → ExtTreeMap κ ν)
    (key : δ → κ) (act : δ → Option ν → Option ν) : Prop where
  lookup : ∀ (map : ExtTreeMap κ ν) (change : δ) (other : κ),
    (step map change)[other]? =
      if key change = other then act change map[other]? else map[other]?

variable {step : ExtTreeMap κ ν → δ → ExtTreeMap κ ν} {key : δ → κ}
  {act : δ → Option ν → Option ν}

theorem foldl_untouched (touches : TouchesKey step key act)
    {changes : List δ} {other : κ} (absent : other ∉ changes.map key)
    (map : ExtTreeMap κ ν) :
    (changes.foldl step map)[other]? = map[other]? := by
  induction changes generalizing map with
  | nil => rfl
  | cons change changes ih =>
      simp only [List.map_cons, List.mem_cons, not_or] at absent
      rw [List.foldl_cons, ih absent.2, touches.lookup, if_neg (Ne.symm absent.1)]

theorem foldl_touched (touches : TouchesKey step key act)
    {changes : List δ} (distinct : (changes.map key).Nodup)
    {change : δ} (member : change ∈ changes) (map : ExtTreeMap κ ν) :
    (changes.foldl step map)[key change]? = act change map[key change]? := by
  induction changes generalizing map with
  | nil => simp at member
  | cons first changes ih =>
      simp only [List.map_cons, List.nodup_cons] at distinct
      rw [List.foldl_cons]
      rcases List.mem_cons.mp member with rfl | inRest
      · rw [foldl_untouched touches distinct.1, touches.lookup, if_pos rfl]
      · have different : key first ≠ key change := by
          intro same
          exact distinct.1 (same ▸ List.mem_map_of_mem inRest)
        rw [ih distinct.2 inRest, touches.lookup, if_neg different]

/-- A fold of changes with distinct keys reaches `target` when every key is
either rewritten to its target entry or untouched and already there. -/
theorem foldl_eq [LawfulEqOrd κ] (touches : TouchesKey step key act) {changes : List δ}
    (distinct : (changes.map key).Nodup) {map target : ExtTreeMap κ ν}
    (reached : ∀ other : κ,
      (∃ change ∈ changes, key change = other ∧
        act change map[other]? = target[other]?) ∨
      (other ∉ changes.map key ∧ map[other]? = target[other]?)) :
    changes.foldl step map = target := by
  apply ExtTreeMap.ext_getElem?
  intro other
  rcases reached other with ⟨change, member, rfl, same⟩ | ⟨absent, same⟩
  · rw [foldl_touched touches distinct member, same]
  · rw [foldl_untouched touches absent, same]

section Records

variable {α β : Type*} {κ δ : Type*} {key : δ → κ}

theorem keys_filterMap_sublist {build : α → Option δ} {keyOf : α → κ}
    (keyed : ∀ entry change, build entry = some change → key change = keyOf entry)
    (entries : List α) :
    ((entries.filterMap build).map key).Sublist (entries.map keyOf) := by
  induction entries with
  | nil => exact List.Sublist.slnil
  | cons entry entries ih =>
      cases built : build entry with
      | none =>
          rw [List.filterMap_cons_none built, List.map_cons]
          exact ih.cons _
      | some change =>
          rw [List.filterMap_cons_some built, List.map_cons, List.map_cons,
            keyed entry change built]
          exact ih.cons_cons _

/-- Changes built from two sources mention no key twice when the second source
only yields keys that the first does not have. -/
theorem nodup_keys_append {first : List α} {second : List β}
    {buildFirst : α → Option δ} {buildSecond : β → Option δ}
    {keyFirst : α → κ} {keySecond : β → κ}
    (firstKeyed : ∀ entry change, buildFirst entry = some change →
      key change = keyFirst entry)
    (secondKeyed : ∀ entry change, buildSecond entry = some change →
      key change = keySecond entry ∧ keySecond entry ∉ first.map keyFirst)
    (firstDistinct : (first.map keyFirst).Nodup)
    (secondDistinct : (second.map keySecond).Nodup) :
    ((first.filterMap buildFirst ++ second.filterMap buildSecond).map key).Nodup := by
  have firstKeys := keys_filterMap_sublist firstKeyed first
  have secondKeys := keys_filterMap_sublist
    (fun entry change built => (secondKeyed entry change built).1) second
  rw [List.map_append, List.nodup_append']
  refine ⟨firstKeys.nodup firstDistinct, secondKeys.nodup secondDistinct, ?_⟩
  intro shared inFirst inSecond
  obtain ⟨change, changeMember, rfl⟩ := List.mem_map.mp inSecond
  obtain ⟨entry, -, built⟩ := List.mem_filterMap.mp changeMember
  obtain ⟨sameKey, foreign⟩ := secondKeyed entry change built
  exact foreign (sameKey ▸ firstKeys.subset inFirst)

end Records

end KeyedUpdates
