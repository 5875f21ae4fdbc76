import Vtorrent.TransactionIndex

/-!
# What the state says about the main chain

A view relates the main blocks to the ledger, the transaction index and the
journals, and survives every change the chain makes to them: appending a block,
rolling one back, and trying a block that fails.  Two views are used later.  The
replay view says that the state is the one a replay leads to, and needs transaction
ids without collisions; the journal view only says which blocks the journals belong
to, and needs nothing.
-/

namespace Vtorrent

open Std MainChain

/-- A relation between main blocks and state that the chain's updates keep. -/
structure LedgerView (network : Network) (options : ChainOptions) where
  /-- The blocks that may be tried. -/
  admits : Block → Prop
  holds : List Block → Ledger → ExtTreeMap Hash (Hash × Nat) → List BlockJournal → Prop
  extend : ∀ {main ledger index journals block journal after},
    holds main ledger index journals → admits block →
    Extends network options main ledger block journal after →
    holds (main ++ [block]) after (indexBlock network.crypto index block)
      (journals ++ [journal])
  rollback : ∀ {main ledger index journals block journal}, main ≠ [] →
    holds (main ++ [block]) ledger index (journals ++ [journal]) →
    journal.blockHash = block.hash network.crypto ∧
      holds main (rollbackJournal ledger journal)
        (Chain.unindexTransactions network.crypto block.transactions index) journals
  rejected : ∀ {main ledger index journals block error after},
    holds main ledger index journals → admits block →
    ValidNext network options main block →
    applyBlockJournaled network (context network options main block) block.transactions
      ledger = .error error after →
    holds main after index journals
  undone : ∀ {main ledger index journals block journal after},
    holds main ledger index journals → admits block →
    ValidNext network options main block →
    applyBlockJournaled network (context network options main block) block.transactions
      ledger = .ok journal after →
    holds main (rollbackJournal after journal) index journals

structure Replayed (network : Network) (options : ChainOptions) (pool : List Transaction)
    (main : List Block) (ledger : Ledger) (index : ExtTreeMap Hash (Hash × Nat))
    (journals : List BlockJournal) : Prop where
  replays : Replays network options main ledger journals
  index : index = txIndex network.crypto main
  pooled : ∀ tx ∈ transactions main, tx ∈ pool

/-- The view that the state is the one of a replay, for blocks whose transactions
come from a pool without id collisions. -/
def replayView (network : Network) (options : ChainOptions) (pool : List Transaction)
    (distinct : DistinctTxids network.crypto pool) : LedgerView network options where
  admits block := ∀ tx ∈ block.transactions, tx ∈ pool
  holds := Replayed network options pool
  extend replayed admitted extended := {
    replays := .extend replayed.replays extended
    index := by rw [txIndex_append, replayed.index]
    pooled := by
      rw [transactions, List.flatMap_append]
      intro tx member
      rcases List.mem_append.mp member with before | here
      · exact replayed.pooled tx before
      · exact admitted tx (by simpa using here) }
  rollback nonempty replayed := by
    obtain ⟨earlier, hashed⟩ :=
      replayed.replays.rollback nonempty distinct replayed.pooled
    refine ⟨hashed, earlier, ?_, ?_⟩
    · rw [replayed.index]
      exact unindex_txIndex replayed.replays distinct replayed.pooled
    · intro tx member
      apply replayed.pooled
      rw [transactions, List.flatMap_append]
      exact List.mem_append_left _ member
  rejected replayed admitted valid ran := by
    rwa [applyBlockJournaled_error
      (replayed.replays.admissible valid distinct replayed.pooled admitted) ran]
  undone replayed admitted valid ran := by
    rwa [applyBlockJournaled_rollback
      (replayed.replays.admissible valid distinct replayed.pooled admitted) ran]

def BlockJournal.identity (journal : BlockJournal) : Hash × Nat :=
  (journal.blockHash, journal.height)

def journalView (network : Network) (options : ChainOptions) :
    LedgerView network options where
  admits _ := True
  holds main _ _ journals :=
    journals.map BlockJournal.identity = (main.map (Block.hash network.crypto)).zipIdx
  extend named _ extended := by
    obtain ⟨hashed, height⟩ := applyBlockJournaled_identity extended.applied
    rw [List.map_append, named, List.map_append, List.zipIdx_append, List.length_map]
    simp [BlockJournal.identity, hashed, height, context]
  rollback {main ledger index journals block journal} _ named := by
    rw [List.map_append, List.map_append, List.zipIdx_append] at named
    obtain ⟨earlier, last⟩ := List.append_inj' named (by simp)
    have identity : journal.blockHash = block.hash network.crypto ∧
        journal.height = main.length := by
      simpa [BlockJournal.identity] using last
    exact ⟨identity.1, earlier⟩
  rejected named _ _ _ := named
  undone named _ _ _ := named

end Vtorrent
