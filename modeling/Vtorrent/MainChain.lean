import Vtorrent.Chain
import Vtorrent.LedgerHistory

/-!
# Replaying a main chain

The state a main chain stands for: apply genesis to an empty ledger and then
each block once, on top of the one before it.  Nothing here knows about forks,
index maps or rollbacks; the chain is later shown to keep exactly this state.
-/

namespace Vtorrent

open Std Retained

def Ledger.empty : Ledger where
  utxoSet := ∅
  claimedAddresses := ∅
  totalSupply := 0
  totalStaked := 0
  params := .initial
  governance := .empty

namespace MainChain

def countSignals (headers : List BlockHeader) (bit period : Nat) : List Nat :=
  if period = 0 then []
  else
    (List.range ((headers.length - 1) / period + 1)).map fun index =>
      (List.range (headers.length - 1 + 1)).countP fun height =>
        decide (height / period = index) &&
          (match headers[height]? with
            | some header => decide (header.version.toNat / 2 ^ bit % 2 = 1)
            | none => false)

def governanceActive (options : ChainOptions) (headers : List BlockHeader)
    (height : Nat) : Bool :=
  match options.governanceTestActivation with
  | some activation => decide (height ≥ activation)
  | none =>
      match options.governanceTestDeployment with
      | none => false
      | some (deployment, period) =>
          deploymentActive deployment period defaultThresholdPct height
            (countSignals headers deployment.bit period)

def context (network : Network) (options : ChainOptions) (main : List Block)
    (block : Block) : BlockContext where
  blockHash := block.hash network.crypto
  height := main.length
  timestamp := block.header.timestamp
  parentStakeModifier := (main.getLast?.map (·.header.stakeModifier)).getD 0
  governanceActive := governanceActive options (main.map Block.header) main.length
  genesisHash := network.genesisBlock.hash network.crypto
  bootstrapped := ((main[1]?.bind (·.transactions.head?)).map
    Transaction.isLegacyClaim).getD false

def genesisContext (network : Network) : BlockContext where
  blockHash := network.genesisBlock.hash network.crypto
  height := 0
  timestamp := genesisTimestamp
  parentStakeModifier := 0
  governanceActive := false
  genesisHash := network.genesisBlock.hash network.crypto
  bootstrapped := false

/-- A block passes the checks against the tip of a main chain. -/
def ValidNext (network : Network) (options : ChainOptions) (main : List Block)
    (block : Block) : Prop :=
  ∀ parent ∈ main.getLast?,
    BlockValid network.crypto block
      (Chain.parentView parent.header (main.length - 1) block.header.prevBlockHash)
      options.allowPowTestBlocks

/-- A block is accepted on top of a main chain and turns one ledger into the
next. -/
structure Extends (network : Network) (options : ChainOptions) (main : List Block)
    (ledger : Ledger) (block : Block) (journal : BlockJournal) (after : Ledger) :
    Prop where
  linked : main.getLast?.map (Block.hash network.crypto) =
    some block.header.prevBlockHash
  valid : ValidNext network options main block
  applied : applyBlockJournaled network (context network options main block)
    block.transactions ledger = .ok journal after
  rooted : Chain.utxoRootWrong block journal = false

inductive Replays (network : Network) (options : ChainOptions) :
    List Block → Ledger → List BlockJournal → Prop
  | genesis {ledger : Ledger} {journal : BlockJournal}
      (applied : applyBlockJournaled network (genesisContext network)
        network.genesisBlock.transactions Ledger.empty = .ok journal ledger) :
      Replays network options [network.genesisBlock] ledger [journal]
  | extend {main : List Block} {ledger after : Ledger} {journals : List BlockJournal}
      {block : Block} {journal : BlockJournal}
      (earlier : Replays network options main ledger journals)
      (next : Extends network options main ledger block journal after) :
      Replays network options (main ++ [block]) after (journals ++ [journal])

variable {network : Network} {options : ChainOptions} {main : List Block}
  {ledger after : Ledger} {block : Block} {journal : BlockJournal}
  {journals : List BlockJournal}

theorem Replays.ne_nil (replays : Replays network options main ledger journals) :
    main ≠ [] := by
  cases replays <;> simp

theorem Replays.head (replays : Replays network options main ledger journals) :
    ∃ rest, main = network.genesisBlock :: rest := by
  induction replays with
  | genesis applied => exact ⟨[], rfl⟩
  | extend earlier next ih =>
      obtain ⟨rest, rfl⟩ := ih
      exact ⟨rest ++ [_], rfl⟩

theorem Replays.last (replays : Replays network options (main ++ [block]) after journals)
    (nonempty : main ≠ []) :
    ∃ ledger earlierJournals journal, journals = earlierJournals ++ [journal] ∧
      Replays network options main ledger earlierJournals ∧
      Extends network options main ledger block journal after := by
  generalize whole : main ++ [block] = all at replays
  cases replays with
  | genesis applied =>
      cases main with
      | nil => exact absurd rfl nonempty
      | cons first rest => simp at whole
  | extend earlier next =>
      obtain ⟨rfl, same⟩ := List.append_inj' whole rfl
      obtain rfl : block = _ := by simpa using same
      exact ⟨_, _, _, rfl, earlier, next⟩

/-- The first part of a replayed chain was replayed on the way. -/
theorem Replays.of_append {rest : List Block}
    (replays : Replays network options (main ++ rest) ledger journals)
    (nonempty : main ≠ []) :
    ∃ earlier earlierJournals, Replays network options main earlier earlierJournals := by
  induction rest using List.reverseRecOn generalizing ledger journals with
  | nil => exact ⟨ledger, journals, by simpa using replays⟩
  | append_singleton rest block ih =>
      rw [← List.append_assoc] at replays
      obtain ⟨_, _, _, -, earlier, -⟩ := replays.last (by simp [nonempty])
      exact ih earlier

theorem Replays.unique {ledger' : Ledger} {journals' : List BlockJournal}
    (first : Replays network options main ledger journals)
    (second : Replays network options main ledger' journals') :
    ledger = ledger' ∧ journals = journals' := by
  induction first generalizing ledger' journals' with
  | genesis applied =>
      generalize whole : [network.genesisBlock] = all at second
      cases second with
      | genesis applied' =>
          rw [applied] at applied'
          cases applied'
          exact ⟨rfl, rfl⟩
      | extend earlier next =>
          have nonempty := earlier.ne_nil
          cases rest : ‹List Block› with
          | nil => exact absurd rest nonempty
          | cons _ _ => simp [rest] at whole
  | extend earlier next ih =>
      obtain ⟨_, _, _, rfl, earlier', next'⟩ := second.last earlier.ne_nil
      obtain ⟨rfl, rfl⟩ := ih earlier'
      have same := next.applied.symm.trans next'.applied
      cases same
      exact ⟨rfl, rfl⟩

def transactions (main : List Block) : List Transaction :=
  main.flatMap Block.transactions

theorem Replays.blockValid (replays : Replays network options main ledger journals)
    (valid : ValidNext network options main block) :
    ∃ parent : ParentView, parent.height + 1 = main.length ∧
      BlockValid network.crypto block parent options.allowPowTestBlocks := by
  have positive : 0 < main.length := List.length_pos_iff.mpr replays.ne_nil
  refine ⟨_, ?_, valid (main.getLast replays.ne_nil) ?_⟩
  · change main.length - 1 + 1 = main.length
    omega
  · exact List.getLast?_eq_some_getLast replays.ne_nil

theorem Replays.wellFormed (replays : Replays network options main ledger journals)
    (valid : ValidNext network options main block) :
    ∀ tx ∈ block.transactions, WellFormed tx := by
  obtain ⟨_, -, blockValid⟩ := replays.blockValid valid
  exact fun tx member => blockValid.wellFormed member

/-- A coinbase carries the height of its block as lock time, so it differs from
every earlier one. -/
theorem Replays.coinbase_lockTime (replays : Replays network options main ledger journals)
    {tx : Transaction} (member : tx ∈ transactions main)
    (coinbase : tx.txType = .coinbase) : tx.lockTime.toNat < main.length := by
  induction replays with
  | genesis applied =>
      have genesisTx : tx = genesisCoinbase ∨ tx = network.legacyDistribution := by
        simpa [transactions, Network.genesisBlock] using member
      rcases genesisTx with rfl | rfl
      · exact Nat.zero_lt_one
      · simp [Network.legacyDistribution] at coinbase
  | @extend main _ _ _ block _ earlier next ih =>
      rw [transactions, List.flatMap_append, List.mem_append] at member
      rw [List.length_append, List.length_singleton]
      rcases member with before | here
      · have := ih before
        omega
      · have here : tx ∈ block.transactions := by simpa using here
        obtain ⟨parent, height, valid⟩ := earlier.blockValid next.valid
        have stated := valid.lockTime_of_coinbase here coinbase
        omega

theorem Replays.unrepeated (replays : Replays network options main ledger journals)
    (valid : ValidNext network options main block) :
    Unrepeated (transactions main).reverse block.transactions := by
  obtain ⟨parent, height, valid⟩ := replays.blockValid valid
  apply valid.unrepeated
  intro tx member coinbase repeated
  have earlier := replays.coinbase_lockTime (List.mem_reverse.mp repeated) coinbase
  have stated := valid.lockTime_of_coinbase member coinbase
  omega

theorem genesis_unrepeated (network : Network) :
    Unrepeated [] network.genesisBlock.transactions := by
  refine ⟨by simp, fun _ repeated => ?_, trivial⟩
  have same : network.legacyDistribution = genesisCoinbase := by simpa using repeated
  have sameType := congrArg Transaction.txType same
  simp [Network.legacyDistribution, genesisCoinbase] at sameType

section Pool

variable {pool : List Transaction}

/-- A main chain whose transactions come from a pool without id collisions keeps
the history of its transactions. -/
theorem Replays.history (replays : Replays network options main ledger journals)
    (distinct : DistinctTxids network.crypto pool)
    (subset : ∀ tx ∈ transactions main, tx ∈ pool) :
    History network.crypto pool (transactions main).reverse ledger.utxoSet
      ledger.claimedAddresses := by
  induction replays with
  | genesis applied =>
      have admissible : Admissible network.crypto pool [] Ledger.empty
          network.genesisBlock.transactions :=
        ⟨History.start _ _ _ _ (by simp [Ledger.empty]), distinct,
          by simpa [transactions] using subset, genesis_unrepeated network⟩
      simpa [transactions] using applyBlockJournaled_history admissible applied
  | @extend main ledger after _ block _ earlier next ih =>
      have inPool : ∀ tx ∈ transactions main ++ block.transactions, tx ∈ pool := by
        simpa [transactions] using subset
      rw [List.forall_mem_append] at inPool
      have admissible : Admissible network.crypto pool (transactions main).reverse ledger
          block.transactions :=
        ⟨ih inPool.1, distinct, inPool.2, earlier.unrepeated next.valid⟩
      simpa [transactions] using applyBlockJournaled_history admissible next.applied

theorem Replays.admissible (replays : Replays network options main ledger journals)
    (valid : ValidNext network options main block)
    (distinct : DistinctTxids network.crypto pool)
    (subset : ∀ tx ∈ transactions main, tx ∈ pool)
    (blockSubset : ∀ tx ∈ block.transactions, tx ∈ pool) :
    Admissible network.crypto pool (transactions main).reverse ledger
      block.transactions :=
  ⟨replays.history distinct subset, distinct, blockSubset, replays.unrepeated valid⟩

theorem Replays.invariant (holds : List Block → Ledger → Prop)
    (replays : Replays network options main ledger journals)
    (distinct : DistinctTxids network.crypto pool)
    (subset : ∀ tx ∈ transactions main, tx ∈ pool)
    (start : ∀ ledger journal, applyBlockJournaled network (genesisContext network)
      network.genesisBlock.transactions Ledger.empty = .ok journal ledger →
      holds [network.genesisBlock] ledger)
    (step : ∀ main ledger journals block journal after,
      Replays network options main ledger journals →
      Extends network options main ledger block journal after →
      Admissible network.crypto pool (transactions main).reverse ledger
        block.transactions →
      holds main ledger → holds (main ++ [block]) after) :
    holds main ledger := by
  induction replays with
  | genesis applied => exact start _ _ applied
  | @extend main ledger after _ block _ earlier next ih =>
      have inPool : ∀ tx ∈ transactions main ++ block.transactions, tx ∈ pool := by
        simpa [transactions] using subset
      rw [List.forall_mem_append] at inPool
      exact step _ _ _ _ _ _ earlier next
        (earlier.admissible next.valid distinct inPool.1 inPool.2) (ih inPool.1)

/-- Rolling back the last block leads to the ledger of the shorter chain. -/
theorem Replays.rollback
    (replays : Replays network options (main ++ [block]) after (journals ++ [journal]))
    (nonempty : main ≠ []) (distinct : DistinctTxids network.crypto pool)
    (subset : ∀ tx ∈ transactions (main ++ [block]), tx ∈ pool) :
    Replays network options main (rollbackJournal after journal) journals ∧
      journal.blockHash = block.hash network.crypto := by
  obtain ⟨ledger, earlierJournals, last, same, earlier, next⟩ := replays.last nonempty
  obtain ⟨rfl, sameLast⟩ := List.append_inj' same rfl
  obtain rfl : journal = last := by simpa using sameLast
  have inPool : ∀ tx ∈ transactions main ++ block.transactions, tx ∈ pool := by
    simpa [transactions] using subset
  rw [List.forall_mem_append] at inPool
  have restored := applyBlockJournaled_rollback
    (earlier.admissible next.valid distinct inPool.1 inPool.2) next.applied
  rw [restored]
  exact ⟨earlier, (applyBlockJournaled_identity next.applied).1⟩

end Pool

end MainChain

end Vtorrent
