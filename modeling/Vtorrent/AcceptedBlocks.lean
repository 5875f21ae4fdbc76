import Vtorrent.ReorganisationFrame

/-!
# How a block is accepted

A block is accepted in one of four ways: it is known already, it extends the main
chain, it is stored on a fork, or its branch takes over.  Each way fixes the chain
afterwards.
-/

namespace Vtorrent

open Std Retained

/-- The checks that a block passes before it is applied or stored. -/
structure Vetted (network : Network) (call : CallContext) (chain : Chain)
    (block : Block) (parent : BlockHeader) (parentHeight : Nat) : Prop where
  fresh : block.hash network.crypto ∉ chain.blockHeights
  valid : BlockValid network.crypto block
    (Chain.parentView parent parentHeight block.header.prevBlockHash)
    chain.allowPowTestBlocks
  timely : block.header.timestamp.toNat ≤ latestTimestamp call.now

/-- The ways in which a block is accepted, with the answer and the chain they
lead to. -/
inductive Accepts (network : Network) (call : CallContext) (chain : Chain)
    (block : Block) : BlockAcceptance → Chain → Prop
  | duplicate (known : block.hash network.crypto ∈ chain.blockHeights) :
      Accepts network call chain block .duplicate chain
  | mainChain {parent : BlockHeader} {journal : BlockJournal} {applied : Chain}
      (tip : block.header.prevBlockHash = chain.bestHash.getD zeroHash)
      (header : chain.getHeaderAtHeight chain.bestHeight = some parent)
      (vetted : Vetted network call chain block parent chain.bestHeight)
      (ran : chain.applyBlockJournaled network block (chain.bestHeight + 1) =
        .ok journal applied)
      (rooted : Chain.utxoRootWrong block journal = false) :
      Accepts network call chain block
        (.mainChain (chain.bestHeight + 1)
          (Chain.mainDiff applied.toLedger journal.changes).1
          (Chain.mainDiff applied.toLedger journal.changes).2 journal.claimedAddresses)
        ((applied.appendBlock network.crypto block (chain.bestHeight + 1) journal).pruneBodies
          call.keyOrder)
  | fork {parent : BlockHeader} {parentHeight : Nat}
      (offTip : block.header.prevBlockHash ≠ chain.bestHash.getD zeroHash)
      (height : chain.blockHeights[block.header.prevBlockHash]? = some parentHeight)
      (header : chain.headers[block.header.prevBlockHash]? = some parent)
      (vetted : Vetted network call chain block parent parentHeight)
      (weaker : chain.workOf block.header.prevBlockHash + 1 ≤
        (chain.storeBlock network.crypto block parentHeight).workOf
          (chain.bestHash.getD zeroHash)) :
      Accepts network call chain block (.fork (block.hash network.crypto))
        ((chain.storeBlock network.crypto block parentHeight).pruneBodies call.keyOrder)
  | reorg {parent : BlockHeader} {parentHeight : Nat} {report : ReorgReport}
      {switched : Chain}
      (offTip : block.header.prevBlockHash ≠ chain.bestHash.getD zeroHash)
      (height : chain.blockHeights[block.header.prevBlockHash]? = some parentHeight)
      (header : chain.headers[block.header.prevBlockHash]? = some parent)
      (vetted : Vetted network call chain block parent parentHeight)
      (stronger : (chain.storeBlock network.crypto block parentHeight).workOf
        (chain.bestHash.getD zeroHash) < chain.workOf block.header.prevBlockHash + 1)
      (ran : Chain.reorganizeTo network (block.hash network.crypto) (parentHeight + 1)
        (chain.storeBlock network.crypto block parentHeight) = .ok report switched) :
      Accepts network call chain block
        (.reorg (chain.bestHash.getD zeroHash) (block.hash network.crypto)
          report.rolledBackBlocks.length report)
        (switched.pruneBodies call.keyOrder)

section Inversion

variable {network : Network} {call : CallContext} {chain after : Chain} {block : Block}
  {acceptance : BlockAcceptance}

theorem vetted_iff {parent : BlockHeader} {parentHeight : Nat}
    (fresh : block.hash network.crypto ∉ chain.blockHeights) :
    validateBlockInner network.crypto call.now block
        (Chain.parentView parent parentHeight block.header.prevBlockHash)
        chain.allowPowTestBlocks = .ok () ↔
      Vetted network call chain block parent parentHeight := by
  rw [validateBlockInner_eq_ok]
  exact ⟨fun ⟨valid, timely⟩ => ⟨fresh, valid, timely⟩,
    fun vetted => ⟨vetted.valid, vetted.timely⟩⟩

theorem extendMain_accepts (fresh : block.hash network.crypto ∉ chain.blockHeights)
    (tip : block.header.prevBlockHash = chain.bestHash.getD zeroHash)
    (ran : Chain.extendMain network call block chain = .ok acceptance after) :
    Accepts network call chain block acceptance after := by
  rw [Chain.extendMain, bind_eq_ok] at ran
  obtain ⟨current, _, got, ran⟩ := ran
  obtain ⟨rfl, rfl⟩ := get_eq_ok.mp got
  rw [Nat.add_sub_cancel] at ran
  cases header : chain.getHeaderAtHeight chain.bestHeight with
  | none =>
      simp only [header] at ran
      exact (throw_eq_ok.mp ran).elim
  | some parent =>
      simp only [header] at ran
      rw [bind_eq_ok] at ran
      obtain ⟨_, _, validatedRan, ran⟩ := ran
      obtain ⟨validated, rfl⟩ := ofExcept_eq_ok.mp validatedRan
      rw [bind_eq_ok] at ran
      obtain ⟨journal, applied, appliedRan, ran⟩ := ran
      rw [bind_eq_ok] at ran
      obtain ⟨current, _, got, ran⟩ := ran
      obtain ⟨rfl, rfl⟩ := get_eq_ok.mp got
      cases rooted : Chain.utxoRootWrong block journal with
      | true => simp [rooted] at ran
      | false =>
          simp only [rooted, Bool.false_eq_true, if_false] at ran
          rw [bind_eq_ok] at ran
          obtain ⟨_, _, recorded, ran⟩ := ran
          obtain rfl := modify_eq_ok.mp recorded
          obtain ⟨rfl, rfl⟩ := pure_eq_ok.mp ran
          exact .mainChain tip header ((vetted_iff fresh).mp validated) appliedRan rooted

theorem extendFork_accepts {parentHeight : Nat}
    (fresh : block.hash network.crypto ∉ chain.blockHeights)
    (offTip : block.header.prevBlockHash ≠ chain.bestHash.getD zeroHash)
    (height : chain.blockHeights[block.header.prevBlockHash]? = some parentHeight)
    (ran : Chain.extendFork network call block parentHeight chain =
      .ok acceptance after) :
    Accepts network call chain block acceptance after := by
  rw [Chain.extendFork, bind_eq_ok] at ran
  obtain ⟨current, _, got, ran⟩ := ran
  obtain ⟨rfl, rfl⟩ := get_eq_ok.mp got
  cases header : chain.headers[block.header.prevBlockHash]? with
  | none =>
      simp only [header] at ran
      exact (throw_eq_ok.mp ran).elim
  | some parent =>
      simp only [header] at ran
      rw [bind_eq_ok] at ran
      obtain ⟨_, _, validatedRan, ran⟩ := ran
      obtain ⟨validated, rfl⟩ := ofExcept_eq_ok.mp validatedRan
      have vetted := (vetted_iff fresh).mp validated
      rw [bind_eq_ok] at ran
      obtain ⟨_, stored, storedRan, ran⟩ := ran
      obtain rfl : chain.storeBlock network.crypto block parentHeight = stored := by
        cases storedRan
        rfl
      by_cases stronger : (chain.storeBlock network.crypto block parentHeight).workOf
          (chain.bestHash.getD zeroHash) < chain.workOf block.header.prevBlockHash + 1
      · rw [if_pos stronger] at ran
        unfold Chain.switchTo at ran
        split at ran
        · rename_i report switched switchedRan
          obtain ⟨rfl, rfl⟩ := EStateM.Result.ok.inj ran
          exact .reorg offTip height header vetted stronger switchedRan
        · cases ran
      · rw [if_neg stronger, bind_eq_ok] at ran
        obtain ⟨_, _, pruned, ran⟩ := ran
        obtain rfl := modify_eq_ok.mp pruned
        obtain ⟨rfl, rfl⟩ := pure_eq_ok.mp ran
        exact .fork offTip height header vetted (Nat.le_of_not_lt stronger)

theorem addBlock_accepts
    (ran : Chain.addBlock network call block chain = .ok acceptance after) :
    Accepts network call chain block acceptance after := by
  rw [Chain.addBlock, bind_eq_ok] at ran
  obtain ⟨current, _, got, ran⟩ := ran
  obtain ⟨rfl, rfl⟩ := get_eq_ok.mp got
  split at ran
  · rename_i known
    obtain ⟨rfl, rfl⟩ := pure_eq_ok.mp ran
    exact .duplicate (ExtTreeMap.mem_iff_contains.mpr known)
  · rename_i unknown
    have fresh : block.hash network.crypto ∉ chain.blockHeights := by
      rwa [ExtTreeMap.mem_iff_contains]
    split at ran
    · rename_i tip
      exact extendMain_accepts fresh tip ran
    · rename_i offTip
      cases height : chain.blockHeights[block.header.prevBlockHash]? with
      | none =>
          simp only [height] at ran
          exact (throw_eq_ok.mp ran).elim
      | some parentHeight =>
          simp only [height] at ran
          exact extendFork_accepts fresh offTip height ran

end Inversion

section Completeness

variable {network : Network} {call : CallContext} {chain after : Chain} {block : Block}
  {acceptance : BlockAcceptance}

theorem Vetted.unknown {parent : BlockHeader} {parentHeight : Nat}
    (vetted : Vetted network call chain block parent parentHeight) :
    ¬ chain.blockHeights.contains (block.hash network.crypto) = true := by
  rw [← ExtTreeMap.mem_iff_contains]
  exact vetted.fresh

theorem addBlock_of_accepts (accepts : Accepts network call chain block acceptance after) :
    Chain.addBlock network call block chain = .ok acceptance after := by
  rw [Chain.addBlock, bind_eq_ok]
  refine ⟨chain, chain, rfl, ?_⟩
  cases accepts with
  | duplicate known =>
      rw [if_pos (ExtTreeMap.mem_iff_contains.mp known)]
      rfl
  | mainChain tip header vetted ran rooted =>
      rw [if_neg vetted.unknown, if_pos tip, Chain.extendMain, bind_eq_ok]
      refine ⟨chain, chain, rfl, ?_⟩
      rw [Nat.add_sub_cancel]
      simp only [header]
      rw [bind_eq_ok]
      refine ⟨(), chain, ofExcept_eq_ok.mpr ⟨(vetted_iff vetted.fresh).mpr vetted, rfl⟩, ?_⟩
      rw [bind_eq_ok]
      refine ⟨_, _, ran, ?_⟩
      rw [bind_eq_ok]
      refine ⟨_, _, rfl, ?_⟩
      simp only [rooted, Bool.false_eq_true, if_false]
      rfl
  | fork offTip height header vetted weaker =>
      rw [if_neg vetted.unknown, if_neg offTip]
      simp only [height]
      rw [Chain.extendFork, bind_eq_ok]
      refine ⟨chain, chain, rfl, ?_⟩
      simp only [header]
      rw [bind_eq_ok]
      refine ⟨(), chain, ofExcept_eq_ok.mpr ⟨(vetted_iff vetted.fresh).mpr vetted, rfl⟩, ?_⟩
      rw [bind_eq_ok]
      refine ⟨(), _, rfl, ?_⟩
      rw [if_neg (Nat.not_lt_of_le weaker)]
      rfl
  | reorg offTip height header vetted stronger ran =>
      rw [if_neg vetted.unknown, if_neg offTip]
      simp only [height]
      rw [Chain.extendFork, bind_eq_ok]
      refine ⟨chain, chain, rfl, ?_⟩
      simp only [header]
      rw [bind_eq_ok]
      refine ⟨(), chain, ofExcept_eq_ok.mpr ⟨(vetted_iff vetted.fresh).mpr vetted, rfl⟩, ?_⟩
      rw [bind_eq_ok]
      refine ⟨(), _, rfl, ?_⟩
      rw [if_pos stronger, Chain.switchTo, ran]

end Completeness

end Vtorrent
