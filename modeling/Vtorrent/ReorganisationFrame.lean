import Vtorrent.BlockTree

/-!
# A failed reorganisation changes nothing

A reorganisation only touches the parts of the chain that follow the main chain,
and exactly these were saved before it started.  Putting them back after a
failure therefore restores the whole chain.
-/

namespace Vtorrent

open Retained

/-- Only the parts of the chain that follow the main chain differ. -/
def SameIndex (before after : Chain) : Prop :=
  after = { before with
    toLedger := after.toLedger
    heightIndex := after.heightIndex
    txIndex := after.txIndex
    journals := after.journals }

namespace SameIndex

variable {first second third : Chain}

theorem refl (chain : Chain) : SameIndex chain chain := rfl

theorem trans (one : SameIndex first second) (two : SameIndex second third) :
    SameIndex first third := by
  unfold SameIndex at *
  rw [two, one]

theorem index (same : SameIndex first second) : second.index = first.index := by
  rw [same]
  rfl

theorem blockBodyCache (same : SameIndex first second) :
    second.blockBodyCache = first.blockBodyCache := by
  rw [same]

theorem maxReorgDepth (same : SameIndex first second) :
    second.maxReorgDepth = first.maxReorgDepth := by
  rw [same]

theorem bind {α β : Type} {step : Chain.Step α} {rest : α → Chain.Step β}
    (stepSame : SameIndex first (final step first))
    (restSame : ∀ value middle, step first = .ok value middle →
      SameIndex middle (final (rest value) middle)) :
    SameIndex first (final (step >>= rest) first) :=
  bind_related (fun one two => one.trans two) stepSame restSame

end SameIndex

section Frame

variable (network : Network)

theorem applyBlockJournaled_sameIndex (block : Block) (height : Nat) (chain : Chain) :
    SameIndex chain (final (Chain.applyBlockJournaled network block height) chain) := by
  unfold final Chain.applyBlockJournaled
  cases chain.parentModifier block height with
  | error error => exact .refl chain
  | ok modifier =>
      dsimp only
      cases Vtorrent.applyBlockJournaled network
        (chain.contextFor network block height modifier) block.transactions
        chain.toLedger <;> rfl

theorem rollbackOneBlock_sameIndex (chain : Chain) :
    SameIndex chain (final (Chain.rollbackOneBlock network.crypto) chain) := by
  unfold final Chain.rollbackOneBlock
  cases chain.journals.getLast? <;> rfl

theorem rollbackBlocks_sameIndex (count : Nat) (report : ReorgReport) (chain : Chain) :
    SameIndex chain (final (Chain.rollbackBlocks network.crypto count report) chain) := by
  induction count generalizing report chain with
  | zero => exact .refl chain
  | succ count ih =>
      apply SameIndex.bind
      · exact rollbackOneBlock_sameIndex network chain
      · rintro ⟨txs, rolledBack⟩ middle _
        exact ih _ middle

theorem applyForkBlock_sameIndex (height : Nat) (hash : Hash) (chain : Chain) :
    SameIndex chain (final (Chain.applyForkBlock network height hash) chain) := by
  apply SameIndex.bind
  · exact .refl chain
  · intro current middle _
    cases current.blocks[hash]? with
    | none => exact .refl middle
    | some block =>
        apply SameIndex.bind
        · exact applyBlockJournaled_sameIndex network block height middle
        · intro journal applied _
          apply SameIndex.bind
          · rw [final_rejectIf]
            exact .refl applied
          · intro _ rooted _
            exact rfl

theorem applyForkBlocks_sameIndex (height : Nat) (hashes : List Hash)
    (report : ReorgReport) (chain : Chain) :
    SameIndex chain
      (final (Chain.applyForkBlocks network height hashes report) chain) := by
  induction hashes generalizing height report chain with
  | nil => exact .refl chain
  | cons hash hashes ih =>
      apply SameIndex.bind
      · exact applyForkBlock_sameIndex network height hash chain
      · intro applied middle _
        exact ih _ _ middle

theorem reorganizeToInner_sameIndex (newTip : Hash) (newTipHeight : Nat)
    (chain : Chain) :
    SameIndex chain
      (final (Chain.reorganizeToInner network newTip newTipHeight) chain) := by
  apply SameIndex.bind
  · exact .refl chain
  · intro current middle _
    apply SameIndex.bind
    · rw [final_rejectIf]
      exact .refl middle
    · intro _ shared _
      dsimp only
      cases current.blockHeights[Chain.forkPointOf
          (current.ancestors (current.bestHash.getD zeroHash))
          (current.ancestors newTip)]? with
      | none => exact .refl shared
      | some forkHeight =>
          apply SameIndex.bind
          · rw [final_rejectIf]
            exact .refl shared
          · intro _ shallow _
            apply SameIndex.bind
            · exact rollbackBlocks_sameIndex network _ _ shallow
            · intro report rolledBack _
              apply SameIndex.bind
              · exact .refl rolledBack
              · intro reached there _
                apply SameIndex.bind
                · rw [final_ofExcept]
                  exact .refl there
                · intro path found _
                  apply SameIndex.bind
                  · exact applyForkBlocks_sameIndex network _ _ _ found
                  · intro report applied _
                    apply SameIndex.bind
                    · exact .refl applied
                    · intro reached there _
                      apply SameIndex.bind
                      · rw [final_rejectIf]
                        exact .refl there
                      · intro _ verified _
                        exact .refl verified

end Frame

theorem reorganizeTo_error {network : Network} {newTip : Hash} {newTipHeight : Nat}
    {chain after : Chain} {error : NodeError}
    (ran : Chain.reorganizeTo network newTip newTipHeight chain = .error error after) :
    after = chain := by
  have same := reorganizeToInner_sameIndex network newTip newTipHeight chain
  unfold Chain.reorganizeTo at ran
  cases inner : Chain.reorganizeToInner network newTip newTipHeight chain with
  | ok report reached =>
      rw [inner] at ran
      cases ran
  | error reason reached =>
      rw [inner] at ran
      rw [final_of_error inner] at same
      cases ran
      rw [same]

end Vtorrent
