import Vtorrent.Deliveries

/-!
# The state is a function of the main chain

Whatever forks, rollbacks and failures a chain went through, its ledger and its
transaction index are those of a fresh chain to which the blocks of the main chain
were added once each, in order, as plain extensions of the tip.
-/

namespace Vtorrent

open Std RootedPaths MainChain Retained

/-- Add blocks one after the other, each as a plain extension of the tip. -/
def Chain.replay (network : Network) (call : CallContext) :
    List Block → Chain → Option Chain
  | [], chain => some chain
  | block :: blocks, chain =>
      match Chain.addBlock network call block chain with
      | .ok (.mainChain _ _ _ _) next => replay network call blocks next
      | _ => none

def Chain.mainBodies (chain : Chain) : List Block :=
  chain.heightIndex.tail.filterMap (chain.blocks[·]?)

section Replay

variable {network : Network} {options : ChainOptions} {pool : List Transaction}
  {distinct : DistinctTxids network.crypto pool} {accepted : Block → Prop}
  {chain : Chain} {main : List Block} {journals : List BlockJournal}
  {call : CallContext}

theorem Tracks.mainBodies {view : LedgerView network options} {blocks : List Block}
    (tracks : Tracks view chain (network.genesisBlock :: blocks) journals) :
    chain.mainBodies = blocks := by
  rw [Chain.mainBodies, tracks.heightIndex, List.map_cons, List.tail_cons,
    List.filterMap_map]
  calc blocks.filterMap ((chain.blocks[·]?) ∘ Block.hash network.crypto)
      = blocks.filterMap some := by
        apply List.filterMap_congr
        intro block member
        exact tracks.stored block (List.mem_cons_of_mem _ member)
    _ = blocks := List.filterMap_some

theorem known_of_pruneBodies {keyOrder : KeyOrder} {hash : Hash}
    (unlimited : chain.blockBodyCache = unlimitedBodies)
    (known : hash ∈ (chain.pruneBodies keyOrder).blockHeights) :
    hash ∈ chain.blockHeights := by
  rw [pruneBodies_eq keyOrder unlimited] at known
  refine pruneForkBodies_invariant (fun pruned => hash ∈ pruned.blockHeights →
    hash ∈ chain.blockHeights) ?_ id known
  intro pruned victim _ _ earlier held
  change hash ∈ pruned.blockHeights.erase victim at held
  exact earlier (ExtTreeMap.mem_of_mem_erase held)

theorem known_of_appended {block : Block} {journal : BlockJournal} {ledger : Ledger}
    {hash : Hash}
    (known : hash ∈ (chain.appended network.crypto block journal ledger).blockHeights) :
    hash = block.hash network.crypto ∨ hash ∈ chain.blockHeights := by
  change hash ∈ chain.blockHeights.insert (block.hash network.crypto) _ at known
  rw [ExtTreeMap.mem_insert, LawfulEqOrd.compare_eq_iff_eq] at known
  exact known.imp_left Eq.symm

theorem Consistent.replay {blocks : List Block} {ledger : Ledger}
    {journals' : List BlockJournal}
    (consistent : Consistent (replayView network options pool distinct) (fun _ => True)
      chain main journals)
    (onlyMain : ∀ hash ∈ chain.blockHeights, hash ∈ main.map (Block.hash network.crypto))
    (replays : Replays network options (main ++ blocks) ledger journals')
    (pooled : ∀ block ∈ blocks, ∀ tx ∈ block.transactions, tx ∈ pool)
    (nodup : ((main ++ blocks).map (Block.hash network.crypto)).Nodup)
    (timely : ∀ block ∈ blocks,
      block.header.timestamp.toNat ≤ latestTimestamp call.now) :
    ∃ replayed journals'', chain.replay network call blocks = some replayed ∧
      Consistent (replayView network options pool distinct) (fun _ => True) replayed
        (main ++ blocks) journals'' := by
  induction blocks generalizing chain main journals with
  | nil => exact ⟨chain, journals, rfl, by simpa using consistent⟩
  | cons block blocks ih =>
      have regrouped : main ++ block :: blocks = (main ++ [block]) ++ blocks := by simp
      rw [regrouped] at replays nodup ⊢
      obtain ⟨next, nextJournals, nextReplays⟩ := replays.of_append (by simp)
      obtain ⟨_, _, journal, -, before, extended⟩ :=
        nextReplays.last consistent.held.replays.ne_nil
      obtain ⟨rfl, -⟩ := before.unique consistent.held.replays
      have fresh : block.hash network.crypto ∉ chain.blockHeights := by
        intro known
        have earlier := onlyMain _ known
        rw [List.map_append, List.map_append] at nodup
        have apart := (List.nodup_append.mp (List.nodup_append.mp nodup).1).2.2
        exact apart _ earlier _ (by simp) rfl
      have added := addBlock_of_accepts (consistent.toCoherent.accepts_appended extended
        fresh (timely block List.mem_cons_self))
      have appended := consistent.appended extended fresh
        (pooled block List.mem_cons_self) trivial
      have onlyMainAfter : ∀ hash ∈ ((chain.appended network.crypto block journal
          next).pruneBodies call.keyOrder).blockHeights,
          hash ∈ (main ++ [block]).map (Block.hash network.crypto) := by
        intro hash known
        rw [List.map_append, List.mem_append]
        rcases known_of_appended (known_of_pruneBodies appended.unlimited known) with
          rfl | earlier
        · exact .inr (by simp)
        · exact .inl (onlyMain hash earlier)
      obtain ⟨replayed, journals'', ran, reached⟩ := ih
        (appended.pruneBodies call.keyOrder) onlyMainAfter replays
        (fun other member => pooled other (List.mem_cons_of_mem _ member)) nodup
        (fun other member => timely other (List.mem_cons_of_mem _ member))
      refine ⟨replayed, journals'', ?_, reached⟩
      rw [Chain.replay, added]
      exact ran

end Replay

theorem latestTimestamp_mono {earlier later : UInt32} (le : earlier ≤ later) :
    latestTimestamp earlier ≤ latestTimestamp later := by
  have := UInt32.le_iff_toNat_le.mp le
  unfold latestTimestamp
  omega

theorem known_of_newWith {network : Network} {options : ChainOptions} {fresh : Chain}
    (created : Chain.newWith network options = .ok fresh) {hash : Hash}
    (known : hash ∈ fresh.blockHeights) :
    hash ∈ [network.genesisBlock].map (Block.hash network.crypto) := by
  obtain ⟨_, -, index, -⟩ := newWith_eq_ok created
  rw [show fresh.blockHeights = (genesisIndex network).blockHeights from
    congrArg BlockIndex.blockHeights index, genesisIndex, ExtTreeMap.mem_insert,
    LawfulEqOrd.compare_eq_iff_eq] at known
  simpa [Network.genesisHash, eq_comm] using known

/-- After any run the ledger and the transaction index are those of a fresh chain
that added the blocks of the main chain as plain extensions. -/
theorem state_eq_replay_of_mainChain {network : Network} {options : ChainOptions}
    {fresh : Chain} {deliveries : List Delivery} {call : CallContext}
    (created : Chain.newWith network options = .ok fresh)
    (distinct : DistinctTxids network.crypto (poolOf network deliveries))
    (later : ∀ delivery ∈ deliveries, delivery.call.now ≤ call.now) :
    ∃ replayed,
      fresh.replay network call (fresh.deliverAll network deliveries).mainBodies =
        some replayed ∧
      (fresh.deliverAll network deliveries).toLedger = replayed.toLedger ∧
      (fresh.deliverAll network deliveries).txIndex = replayed.txIndex ∧
      (fresh.deliverAll network deliveries).heightIndex = replayed.heightIndex := by
  obtain ⟨main, journals, reached⟩ :=
    reachable_replayed distinct (fun _ member => member) created
  obtain ⟨blocks, rfl⟩ := reached.held.replays.head
  obtain ⟨journal, -, start⟩ := newWith_replayed distinct
    (fun _ member => List.mem_append_left _ member) (fun _ => True) created
  obtain ⟨tip, path⟩ := reached.path
  have timely : ∀ block ∈ blocks,
      block.header.timestamp.toNat ≤ latestTimestamp call.now := by
    intro block member
    obtain ⟨delivery, inRun, -, accepted⟩ := reached.toCoherent.accepted_of_mem member
    exact accepted.trans (latestTimestamp_mono (later delivery inRun))
  obtain ⟨replayed, journals', ran, finish⟩ := start.replay
    (fun hash known => known_of_newWith created known) reached.held.replays
    (fun block member => (reached.toCoherent.accepted_of_mem member).pooled)
    (path.nodup reached.tree.genesisParent) timely
  obtain ⟨sameLedger, -⟩ := reached.held.replays.unique finish.held.replays
  rw [reached.toTracks.mainBodies]
  refine ⟨replayed, ran, sameLedger, ?_, ?_⟩
  · rw [reached.held.index, finish.held.index]
    rfl
  · rw [reached.heightIndex, finish.heightIndex]
    rfl

/-- After a reorganisation to a branch of two blocks. -/
theorem state_eq_replay_of_rivals :
    let reached := Regtest.fresh.deliverAll Regtest.network
      (Regtest.deliveries Regtest.rivals)
    reached.mainBodies = Regtest.branch 2 2 0 Regtest.network.genesisBlock.header ∧
      ∃ replayed,
        Regtest.fresh.replay Regtest.network Regtest.call reached.mainBodies =
          some replayed ∧
        reached.toLedger = replayed.toLedger ∧ reached.txIndex = replayed.txIndex ∧
        reached.heightIndex = replayed.heightIndex := by
  refine ⟨by decide +kernel, ?_⟩
  exact state_eq_replay_of_mainChain Regtest.newWith_eq Regtest.rivals_distinct
    (by simp [Regtest.deliveries])

/-- A rejected block leaves the whole chain as it was, also when it made a
reorganisation start and fail. -/
theorem addBlock_error_eq_self {network : Network} {options : ChainOptions}
    {fresh after : Chain} {deliveries : List Delivery} {call : CallContext}
    {block : Block} {error : NodeError}
    (created : Chain.newWith network options = .ok fresh)
    (distinct : DistinctTxids network.crypto
      (poolOf network (deliveries ++ [⟨call, block⟩])))
    (ran : Chain.addBlock network call block (fresh.deliverAll network deliveries) =
      .error error after) :
    after = fresh.deliverAll network deliveries := by
  have covers : ∀ tx ∈ poolOf network deliveries,
      tx ∈ poolOf network (deliveries ++ [⟨call, block⟩]) := by
    intro tx member
    rw [poolOf, List.flatMap_append, ← List.append_assoc]
    exact List.mem_append_left _ member
  have admitted : ∀ tx ∈ block.transactions,
      tx ∈ poolOf network (deliveries ++ [⟨call, block⟩]) := by
    intro tx member
    simp [poolOf, member]
  obtain ⟨main, journals, reached⟩ := reachable_replayed distinct covers created
  have unmoved := reached.toCoherent.addBlock_error admitted ran
  obtain ⟨sameLedger, -⟩ := unmoved.held.replays.unique reached.held.replays
  rw [unmoved.frame, sameLedger]

/-- A reorganisation that fails at its second block, after the first was applied. -/
theorem addBlock_error_of_tampered :
    let before := Regtest.fresh.deliverAll Regtest.network
      (Regtest.deliveries (Regtest.rivals.take 2))
    Chain.addBlock Regtest.network Regtest.call Regtest.tampered before =
      .error (.invalidTransaction ("Input " ++ hexEncode zeroHash.toList ++
        ":0 not found in UTXO set")) before := by
  intro before
  have failed : (match Chain.addBlock Regtest.network Regtest.call Regtest.tampered before
      with | .ok _ _ => none | .error error _ => some error) =
      some (.invalidTransaction ("Input " ++ hexEncode zeroHash.toList ++
        ":0 not found in UTXO set")) := by decide +kernel
  cases ran : Chain.addBlock Regtest.network Regtest.call Regtest.tampered before with
  | ok answer after =>
      rw [ran] at failed
      cases failed
  | error error after =>
      rw [ran] at failed
      have same := addBlock_error_eq_self Regtest.newWith_eq (by decide +kernel) ran
      rw [same, Option.some.inj failed]

end Vtorrent
