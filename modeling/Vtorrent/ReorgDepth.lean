import Vtorrent.Deliveries

/-!
# How deep a reorganisation can go

A reorganisation goes back as far as the journals reach.  A plain extension trims
the journals to the depth limit, but a reorganisation adds one journal more than it
removes and trims nothing, so the limit holds only while every reorganisation
starts below it.
-/

namespace Vtorrent

open Std MainChain Retained

/-- The block continues a rival of the tip that is as high as the tip itself. -/
def Overtakes (chain : Chain) (block : Block) : Prop :=
  block.header.prevBlockHash ≠ chain.bestHash.getD zeroHash ∧
    chain.blockHeights[block.header.prevBlockHash]? = some chain.bestHeight

instance (chain : Chain) (block : Block) : Decidable (Overtakes chain block) :=
  inferInstanceAs (Decidable (_ ∧ _))

section Step

variable {network : Network} {options : ChainOptions} {chain after : Chain}
  {main : List Block} {journals : List BlockJournal} {block : Block}
  {call : CallContext} {acceptance : BlockAcceptance}

theorem Consistent.overtakes {oldTip newTip : Hash} {depth : Nat} {report : ReorgReport}
    (consistent : Consistent (journalView network options) (fun _ => True) chain main
      journals)
    (accepts : Accepts network call chain block (.reorg oldTip newTip depth report)
      after) : Overtakes chain block := by
  cases accepts with
  | reorg offTip known header vetted stronger ran =>
      have stored := consistent.toCoherent.storeBlock vetted header known trivial
      have longer := consistent.height_of_stronger known stored stronger
      rw [← consistent.toCoherent.bestHeight_succ] at longer
      exact ⟨offTip, by rw [known, Nat.succ.inj longer]⟩

theorem Consistent.growth
    (consistent : Consistent (journalView network options) (fun _ => True) chain main
      journals)
    (accepts : Accepts network call chain block acceptance after) :
    ∃ main', Growth chain.journals main block after.journals main' acceptance := by
  obtain ⟨main', _, growth, -⟩ :=
    consistent.accepts (fun _ _ => trivial) (fun _ => trivial) accepts
  exact ⟨main', growth⟩

/-- A delivery keeps the limit unless it overtakes the tip when the journals have
already reached the limit. -/
theorem Consistent.length_journals_deliver {delivery : Delivery}
    (consistent : Consistent (journalView network options) (fun _ => True) chain main
      journals)
    (bounded : chain.journals.length ≤ 100)
    (spaced : Overtakes chain delivery.block → chain.journals.length < 100) :
    (chain.deliver network delivery).journals.length ≤ 100 := by
  rcases consistent.toCoherent.deliver_cases delivery trivial with
    unmoved | ⟨acceptance, accepts⟩
  · rw [unmoved.frame]
    exact bounded
  · obtain ⟨main', growth⟩ := consistent.growth accepts
    cases acceptance with
    | duplicate =>
        rw [growth.2]
        exact bounded
    | fork forkTip =>
        rw [growth.2]
        exact bounded
    | mainChain height added removed claimed =>
        rw [growth.2]
        exact Nat.min_le_right _ _
    | reorg oldTip newTip depth report =>
        rw [growth.2.1]
        exact spaced (consistent.overtakes accepts)

end Step

/-- In a run in which the tip is only overtaken while there are fewer journals than
the depth limit, the limit holds for the journals and for the next reorganisation. -/
theorem reorg_depth_le {network : Network} {options : ChainOptions} {fresh : Chain}
    {deliveries : List Delivery} (created : Chain.newWith network options = .ok fresh)
    (spaced : ∀ i < deliveries.length, ∀ delivery ∈ deliveries[i]?,
      Overtakes (fresh.deliverAll network (deliveries.take i)) delivery.block →
      (fresh.deliverAll network (deliveries.take i)).journals.length <
        (fresh.deliverAll network (deliveries.take i)).maxReorgDepth) :
    (fresh.deliverAll network deliveries).journals.length ≤
        (fresh.deliverAll network deliveries).maxReorgDepth ∧
      ∀ call block oldTip newTip depth report after,
        Chain.addBlock network call block (fresh.deliverAll network deliveries) =
          .ok (.reorg oldTip newTip depth report) after →
        depth ≤ (fresh.deliverAll network deliveries).maxReorgDepth := by
  have bounded : (fresh.deliverAll network deliveries).journals.length ≤ 100 := by
    induction deliveries using List.reverseRecOn with
    | nil =>
        obtain ⟨journal, -, -, -, -, journals, -⟩ := newWith_eq_ok created
        rw [Chain.deliverAll, List.foldl_nil, journals]
        exact Nat.le_add_left 1 99
    | append_singleton deliveries delivery ih =>
        obtain ⟨main, journals, reached⟩ := reachable_journals created deliveries
        rw [Chain.deliverAll, List.foldl_append]
        apply reached.length_journals_deliver
        · apply ih
          intro i inRun earlier found
          have still := spaced i (by rw [List.length_append]; omega) earlier
            (by rwa [List.getElem?_append_left inRun])
          rwa [List.take_append_of_le_length inRun.le] at still
        · have now := spaced deliveries.length (by simp) delivery (by simp)
          rwa [List.take_left, reached.reorgDepth] at now
  obtain ⟨main, journals, reached⟩ := reachable_journals created deliveries
  rw [reached.reorgDepth]
  refine ⟨bounded, fun call block oldTip newTip depth report after ran => ?_⟩
  obtain ⟨main', -, -, covered⟩ := reached.growth (addBlock_accepts ran)
  exact covered.trans bounded

/-- A run whose only reorganisation starts with two journals. -/
theorem rivals_reorg_depth_le :
    (Regtest.fresh.deliverAll Regtest.network
        (Regtest.deliveries Regtest.rivals)).journals.length ≤
      (Regtest.fresh.deliverAll Regtest.network
        (Regtest.deliveries Regtest.rivals)).maxReorgDepth :=
  (reorg_depth_le Regtest.newWith_eq (by decide +kernel)).1

/-- A run of accepted blocks that ends in a reorganisation of 101 blocks, one more
than the depth limit: an earlier reorganisation has left 101 journals. -/
theorem reorg_depth_exceeds_limit :
    Regtest.besieged.maxReorgDepth = 100 ∧ 100 < Regtest.besieged.journals.length ∧
      ∃ block oldTip newTip report after,
        Chain.addBlock Regtest.network Regtest.call block Regtest.besieged =
          .ok (.reorg oldTip newTip 101 report) after := by
  obtain ⟨block, -, depth⟩ := Option.bind_eq_some_iff.mp Regtest.depthOf_usurpers
  obtain ⟨main, journals, reached⟩ : ∃ main journals, Consistent
      (journalView Regtest.network Regtest.options) (fun _ => True) Regtest.besieged main
      journals :=
    reachable_journals Regtest.newWith_eq _
  obtain ⟨oldTip, newTip, report, after, ran⟩ := Regtest.of_depthOf depth
  obtain ⟨main', -, -, covered⟩ := reached.growth (addBlock_accepts ran)
  exact ⟨reached.reorgDepth, covered, block, oldTip, newTip, report, after, ran⟩

end Vtorrent
