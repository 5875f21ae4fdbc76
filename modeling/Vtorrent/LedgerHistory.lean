import Vtorrent.BlockValidity
import Vtorrent.JournalUndo

/-!
# Transactions are applied at most once

A transaction that was applied before spends outputs that are gone, or claims
an address that is taken, so it fails before it creates outputs again.  With
transaction ids free of collisions, outputs are therefore always created under
fresh references, and the journal of a block undoes it exactly.
-/

namespace Vtorrent

open Std Retained

/-- Nothing stops such a transaction from being applied twice: it has no claim
and either spends nothing or is excused from missing inputs. -/
def Transaction.Unguarded (tx : Transaction) : Prop :=
  tx.claims = none ∧ (tx.isLegacyClaim = true ∨ tx.spendable = [])

/-- Transactions of the pool never share an id. -/
def DistinctTxids (crypto : Crypto) (pool : List Transaction) : Prop :=
  ∀ first ∈ pool, ∀ second ∈ pool,
    first.txid crypto = second.txid crypto → first = second

instance (crypto : Crypto) (pool : List Transaction) :
    Decidable (DistinctTxids crypto pool) :=
  inferInstanceAs (Decidable (∀ first ∈ pool, ∀ second ∈ pool,
    first.txid crypto = second.txid crypto → first = second))

/-- How a ledger remembers the transactions applied to it, seen from a pool
that holds those transactions and the ones still to come. -/
structure History (crypto : Crypto) (pool applied : List Transaction)
    (utxos : UtxoSet) (claimed : Finset String) : Prop where
  fresh : ∀ tx ∈ pool, tx ∉ applied → ∀ vout,
    (⟨tx.txid crypto, vout⟩ : OutPoint) ∉ utxos
  spentGone : ∀ tx ∈ applied, tx.isLegacyClaim = false → ∀ input ∈ tx.spendable,
    input.outPoint ∉ utxos ∧
      ∀ other ∈ pool, other ∉ applied → other.txid crypto ≠ input.prevTxid
  claimed : ∀ tx ∈ applied, ∀ address, tx.claims = some address → address ∈ claimed
  nodup : applied.Nodup

/-- No transaction of the list repeats an applied one unless a repetition would
be noticed. -/
def Unrepeated : List Transaction → List Transaction → Prop
  | _, [] => True
  | applied, tx :: txs => (tx.Unguarded → tx ∉ applied) ∧ Unrepeated (tx :: applied) txs

theorem unrepeated_of_guarded {applied txs : List Transaction}
    (guarded : ∀ tx ∈ txs, ¬ tx.Unguarded) : Unrepeated applied txs := by
  induction txs generalizing applied with
  | nil => trivial
  | cons tx txs ih =>
      exact ⟨fun unguarded => absurd unguarded (guarded tx List.mem_cons_self),
        ih fun other member => guarded other (List.mem_cons_of_mem _ member)⟩

theorem WellFormed.coinbase_of_unguarded {tx : Transaction} (wellFormed : WellFormed tx)
    (unguarded : tx.Unguarded) : tx.txType = .coinbase := by
  by_contra notCoinbase
  obtain ⟨unclaimed, excused⟩ := unguarded
  by_cases claim : tx.txType = .legacyClaim
  · have named := (wellFormed.claim claim).1
    simp [Transaction.claims, Transaction.isLegacyClaim, claim] at unclaimed
    simp [unclaimed] at named
  · have spends := wellFormed.inputsNonempty claim notCoinbase
    simp [Transaction.isLegacyClaim, Transaction.spendable, Transaction.isCoinbase,
      claim, notCoinbase, spends] at excused

/-- A validated block repeats nothing unnoticed unless it repeats an applied coinbase. -/
theorem BlockValid.unrepeated {crypto : Crypto} {block : Block} {parent : ParentView}
    {allowPow : Bool} {applied : List Transaction}
    (valid : BlockValid crypto block parent allowPow)
    (fresh : ∀ tx ∈ block.transactions, tx.txType = .coinbase → tx ∉ applied) :
    Unrepeated applied block.transactions := by
  cases shape : block.transactions with
  | nil => trivial
  | cons tx txs =>
      refine ⟨fun unguarded => ?_, ?_⟩
      · have member : tx ∈ block.transactions := shape ▸ List.mem_cons_self
        exact fresh tx member ((valid.wellFormed member).coinbase_of_unguarded unguarded)
      · apply unrepeated_of_guarded
        intro later member unguarded
        have coinbase := (valid.wellFormed
          (shape ▸ List.mem_cons_of_mem tx member)).coinbase_of_unguarded unguarded
        have notCoinbase := (valid.single later (by rwa [shape])).1
        simp [Transaction.isCoinbase, coinbase] at notCoinbase

theorem mem_insertUtxos {utxos : UtxoSet} {created : List Utxo} {key : OutPoint} :
    key ∈ insertUtxos utxos created ↔ key ∈ created.map Utxo.outPoint ∨ key ∈ utxos := by
  induction created generalizing utxos with
  | nil => simp [insertUtxos]
  | cons utxo created ih =>
      have unfolded : insertUtxos utxos (utxo :: created) =
          insertUtxos (utxos.insert utxo.outPoint utxo) created := rfl
      rw [unfolded, ih, ExtTreeMap.mem_insert, LawfulEqOrd.compare_eq_iff_eq,
        List.map_cons, List.mem_cons, or_assoc, eq_comm]
      tauto

theorem mem_eraseInputs {utxos : UtxoSet} {inputs : List TxInput} {key : OutPoint} :
    key ∈ eraseInputs utxos inputs ↔
      key ∉ inputs.map TxInput.outPoint ∧ key ∈ utxos := by
  rw [ExtTreeMap.mem_iff_isSome_getElem?, getElem?_eraseInputs,
    ExtTreeMap.mem_iff_isSome_getElem?]
  split <;> simp_all

theorem txid_of_createdBy {network : Network} {context : BlockContext}
    {tx : Transaction} {vout : Nat} {outputs : List TxOutput} {utxo : Utxo}
    (member : utxo ∈ createdBy network context tx vout outputs) :
    utxo.txid = tx.txid network.crypto := by
  induction outputs generalizing vout with
  | nil => simp [createdBy] at member
  | cons output outputs ih =>
      rw [createdBy] at member
      split at member
      · rcases List.mem_cons.mp member with rfl | later
        · rfl
        · exact ih later
      · exact ih member

namespace History

variable {network : Network} {context : BlockContext} {tx : Transaction}
  {pool applied : List Transaction} {state after : Applying}

theorem start (crypto : Crypto) (pool : List Transaction) (claimed : Finset String)
    (utxos : UtxoSet)
    (fresh : ∀ tx ∈ pool, ∀ vout, (⟨tx.txid crypto, vout⟩ : OutPoint) ∉ utxos) :
    History crypto pool [] utxos claimed :=
  ⟨fun tx member _ => fresh tx member, by simp, by simp, List.nodup_nil⟩

theorem notApplied (history : History network.crypto pool applied state.utxoSet
      state.claimedAddresses)
    (once : tx.Unguarded → tx ∉ applied)
    (found : tx.isLegacyClaim = false →
      (spentBy state.utxoSet 0 tx.spendable).map SpentInput.input = tx.spendable)
    (unclaimed : ∀ address, tx.claims = some address →
      address ∉ state.claimedAddresses) :
    tx ∉ applied := by
  intro repeated
  cases claim : tx.claims with
  | some address =>
      exact unclaimed address claim (history.claimed tx repeated address claim)
  | none =>
      have guarded : ¬ tx.Unguarded := fun unguarded => once unguarded repeated
      rw [Transaction.Unguarded, not_and, not_or] at guarded
      obtain ⟨notClaim, spendsSome⟩ := guarded claim
      have notClaim : tx.isLegacyClaim = false := by simpa using notClaim
      obtain ⟨input, inInputs⟩ := List.exists_mem_of_ne_nil _ spendsSome
      have inFound : input ∈ (spentBy state.utxoSet 0 tx.spendable).map
          SpentInput.input := (found notClaim).symm ▸ inInputs
      obtain ⟨spending, member, rfl⟩ := List.mem_map.mp inFound
      have gone := (history.spentGone tx repeated notClaim _ inInputs).1
      rw [ExtTreeMap.mem_iff_isSome_getElem?, spentBy_held member] at gone
      simp at gone

theorem createsFresh (history : History network.crypto pool applied state.utxoSet
      state.claimedAddresses)
    (inPool : tx ∈ pool) (once : tx.Unguarded → tx ∉ applied) :
    CreatesFresh network context tx state := by
  intro spent spentState claimedState spentRan claimedRan
  have spends := spendPhase_eq_ok spentRan
  obtain ⟨-, claims, -, -⟩ := claimPhase_eq_ok claimedRan
  rw [spends.frame] at claims
  exact history.fresh tx inPool (history.notApplied once spends.found
    fun address claim => (claims address claim).1)

theorem effect (history : History network.crypto pool applied state.utxoSet
      state.claimedAddresses)
    (distinct : DistinctTxids network.crypto pool) (inPool : tx ∈ pool)
    (once : tx.Unguarded → tx ∉ applied)
    (effect : Effect network context tx state after) :
    History network.crypto pool (tx :: applied) after.utxoSet
      after.claimedAddresses := by
  have notApplied : tx ∉ applied := history.notApplied once effect.found
    fun address claim => (effect.claims address claim).1
  have created : ∀ key ∈ after.utxoSet,
      key.txid = tx.txid network.crypto ∨
        key ∉ tx.spendable.map TxInput.outPoint ∧ key ∈ state.utxoSet := by
    intro key held
    rw [effect.utxoSet, mem_insertUtxos, mem_eraseInputs] at held
    rcases held with new | old
    · obtain ⟨utxo, member, rfl⟩ := List.mem_map.mp new
      exact .inl (txid_of_createdBy member)
    · exact .inr old
  constructor
  · intro other inPool' notMember vout held
    simp only [List.mem_cons, not_or] at notMember
    rcases created _ held with same | ⟨-, old⟩
    · exact notMember.1 (distinct other inPool' tx inPool same)
    · exact history.fresh other inPool' notMember.2 vout old
  · intro earlier member notClaim input inInputs
    rcases List.mem_cons.mp member with rfl | before
    · have heldBefore : input.outPoint ∈ state.utxoSet := by
        have found := effect.found notClaim
        have inFound : input ∈ (spentBy state.utxoSet 0 earlier.spendable).map
            SpentInput.input := found.symm ▸ inInputs
        obtain ⟨spending, spendingMember, rfl⟩ := List.mem_map.mp inFound
        rw [ExtTreeMap.mem_iff_isSome_getElem?, spentBy_held spendingMember]
        rfl
      have foreign : ∀ other ∈ pool, other ∉ applied →
          other.txid network.crypto ≠ input.prevTxid := by
        intro other inPool' unapplied same
        apply history.fresh other inPool' unapplied input.prevVout.toNat
        rw [same]
        exact heldBefore
      refine ⟨fun held => ?_, fun other inPool' unapplied => ?_⟩
      · rcases created _ held with same | ⟨kept, -⟩
        · exact foreign earlier inPool notApplied same.symm
        · exact kept (List.mem_map_of_mem inInputs)
      · simp only [List.mem_cons, not_or] at unapplied
        exact foreign other inPool' unapplied.2
    · obtain ⟨gone, foreign⟩ := history.spentGone earlier before notClaim input inInputs
      refine ⟨fun held => ?_, fun other inPool' unapplied => ?_⟩
      · rcases created _ held with same | ⟨-, old⟩
        · exact foreign tx inPool notApplied same.symm
        · exact gone old
      · simp only [List.mem_cons, not_or] at unapplied
        exact foreign other inPool' unapplied.2
  · intro earlier member address claim
    rw [effect.claimedAddresses]
    rcases List.mem_cons.mp member with rfl | before
    · exact .inl claim
    · exact .inr (history.claimed earlier before address claim)
  · exact List.nodup_cons.mpr ⟨notApplied, history.nodup⟩

theorem applyTransactions {txs : List Transaction} {result : Unit}
    (history : History network.crypto pool applied state.utxoSet
      state.claimedAddresses)
    (distinct : DistinctTxids network.crypto pool) (subset : ∀ tx ∈ txs, tx ∈ pool)
    (unrepeated : Unrepeated applied txs)
    (ran : applyTransactions network context txs state = .ok result after) :
    History network.crypto pool (txs.reverse ++ applied) after.utxoSet
      after.claimedAddresses := by
  induction txs generalizing applied state with
  | nil =>
      obtain ⟨-, rfl⟩ := pure_eq_ok.mp ran
      exact history
  | cons tx txs ih =>
      rw [Vtorrent.applyTransactions, bind_eq_ok] at ran
      obtain ⟨_, middle, first, rest⟩ := ran
      have next := history.effect distinct (subset tx List.mem_cons_self)
        unrepeated.1 (applyTransaction_eq_ok first)
      have later := ih next (fun other member => subset other
        (List.mem_cons_of_mem _ member)) unrepeated.2 rest
      rwa [List.reverse_cons, List.append_assoc]

end History

section Block

variable {network : Network} {context : BlockContext}
  {pool applied txs : List Transaction}

theorem applyTransactions_edits {state : Applying}
    (history : History network.crypto pool applied state.utxoSet
      state.claimedAddresses)
    (distinct : DistinctTxids network.crypto pool) (subset : ∀ tx ∈ txs, tx ∈ pool)
    (unrepeated : Unrepeated applied txs) :
    Edits context.governanceActive state
      (final (applyTransactions network context txs) state) := by
  induction txs generalizing applied state with
  | nil => exact Relation.ReflTransGen.refl
  | cons tx txs ih =>
      have inPool := subset tx List.mem_cons_self
      apply bind_related Relation.ReflTransGen.trans
      · exact applyTransaction_edits fun governance =>
          History.createsFresh history inPool unrepeated.1
      · intro _ middle first
        have next := history.effect distinct inPool unrepeated.1
          (applyTransaction_eq_ok first)
        exact ih next (fun other member => subset other
          (List.mem_cons_of_mem _ member)) unrepeated.2

theorem beginGovernanceBlock_eq_ok {state after : Applying} {result : Unit}
    (ran : beginGovernanceBlock context state = .ok result after) :
    after = { state with
      governance := after.governance
      params := after.params
      totalStaked := after.totalStaked } := by
  rw [beginGovernanceBlock, modify_eq_ok] at ran
  subst ran
  split <;> rfl

/-- What a block may assume about the transactions it brings: they come from a
pool without id collisions and repeat nothing that could be repeated unnoticed. -/
structure Admissible (crypto : Crypto) (pool applied : List Transaction)
    (ledger : Ledger) (txs : List Transaction) : Prop where
  history : History crypto pool applied ledger.utxoSet ledger.claimedAddresses
  distinct : DistinctTxids crypto pool
  subset : ∀ tx ∈ txs, tx ∈ pool
  unrepeated : Unrepeated applied txs

variable {before after : Ledger}

theorem Admissible.began
    (admissible : Admissible network.crypto pool applied before txs)
    {begun : Applying} {result : Unit}
    (ran : beginGovernanceBlock context (.start context before) = .ok result begun) :
    History network.crypto pool applied begun.utxoSet begun.claimedAddresses := by
  rw [beginGovernanceBlock_eq_ok ran]
  exact admissible.history

theorem applyBlock_undoable
    (admissible : Admissible network.crypto pool applied before txs) :
    Undoable context.governanceActive before
      (final (applyBlock network context txs) (.start context before)) := by
  apply bind_invariant
  · exact (Undoable.start context before).beginGovernanceBlock
  · intro _ begun beganRan undoable
    apply bind_invariant
    · exact undoable.edits (applyTransactions_edits (admissible.began beganRan)
        admissible.distinct admissible.subset admissible.unrepeated)
    · intro _ appliedState _ undoable
      apply bind_invariant
      · exact undoable
      · intro _ currentState _ undoable
        apply bind_invariant
        · rwa [final_ofExcept]
        · intro _ checkedState _ undoable
          exact undoable.commit network.crypto

theorem applyBlockJournaled_error {error : NodeError}
    (admissible : Admissible network.crypto pool applied before txs)
    (ran : applyBlockJournaled network context txs before = .error error after) :
    after = before := by
  have undoable : Undoable context.governanceActive before
      (final (applyBlock network context txs) (.start context before)) :=
    applyBlock_undoable admissible
  unfold applyBlockJournaled at ran
  split at ran
  · cases ran
  · rename_i failed
    rw [final_of_error failed] at undoable
    cases ran
    exact undoable.rollback

theorem applyBlockJournaled_rollback {journal : BlockJournal}
    (admissible : Admissible network.crypto pool applied before txs)
    (ran : applyBlockJournaled network context txs before = .ok journal after) :
    rollbackJournal after journal = before := by
  have undoable : Undoable context.governanceActive before
      (final (applyBlock network context txs) (.start context before)) :=
    applyBlock_undoable admissible
  unfold applyBlockJournaled at ran
  split at ran
  · rename_i finished
    rw [final_of_ok finished] at undoable
    cases ran
    exact undoable.rollback
  · cases ran

theorem applyBlockJournaled_eq_ok {journal : BlockJournal}
    (ran : applyBlockJournaled network context txs before = .ok journal after) :
    ∃ begun done : Applying,
      beginGovernanceBlock context (.start context before) = .ok () begun ∧
      applyTransactions network context txs begun = .ok () done ∧
      checkSupply done.totalSupply done.journal.supplyDelta = .ok () ∧
      after = (done.commit network.crypto).toLedger ∧
      journal = finishJournal context before (done.commit network.crypto) := by
  unfold applyBlockJournaled at ran
  split at ran
  · rename_i finished
    rw [applyBlock, bind_eq_ok] at finished
    obtain ⟨_, begun, beganRan, finished⟩ := finished
    rw [bind_eq_ok] at finished
    obtain ⟨_, done, doneRan, finished⟩ := finished
    rw [bind_eq_ok] at finished
    obtain ⟨current, _, got, finished⟩ := finished
    obtain ⟨rfl, rfl⟩ := get_eq_ok.mp got
    rw [bind_eq_ok] at finished
    obtain ⟨_, _, checkedRan, finished⟩ := finished
    obtain ⟨checked, rfl⟩ := ofExcept_eq_ok.mp checkedRan
    rw [modify_eq_ok] at finished
    subst finished
    cases ran
    exact ⟨begun, done, beganRan, doneRan, checked, rfl, rfl⟩
  · cases ran

theorem applyBlockJournaled_identity {journal : BlockJournal}
    (ran : applyBlockJournaled network context txs before = .ok journal after) :
    journal.blockHash = context.blockHash ∧ journal.height = context.height := by
  obtain ⟨begun, done, beganRan, doneRan, -, -, rfl⟩ := applyBlockJournaled_eq_ok ran
  have kept : done.journal.blockHash = context.blockHash ∧
      done.journal.height = context.height := by
    refine applyTransactions_invariant (fun state =>
      state.journal.blockHash = context.blockHash ∧
        state.journal.height = context.height) ?_ doneRan ?_
    · intro tx _ state next effect held
      rw [effect.blockHash, effect.height]
      exact held
    · rw [beginGovernanceBlock_eq_ok beganRan]
      exact ⟨rfl, rfl⟩
  exact kept

theorem applyBlockJournaled_history {journal : BlockJournal}
    (admissible : Admissible network.crypto pool applied before txs)
    (ran : applyBlockJournaled network context txs before = .ok journal after) :
    History network.crypto pool (txs.reverse ++ applied) after.utxoSet
      after.claimedAddresses := by
  obtain ⟨begun, done, beganRan, doneRan, -, rfl, -⟩ := applyBlockJournaled_eq_ok ran
  have history := (admissible.began beganRan).applyTransactions admissible.distinct
    admissible.subset admissible.unrepeated doneRan
  exact history

end Block

end Vtorrent
