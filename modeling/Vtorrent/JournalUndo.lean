import Vtorrent.TransactionEffects

/-!
# The journal of a block undoes the block

While a block is applied the state changes only by a few kinds of edits, and
each edit that touches outputs or claims is recorded in the journal.  Undoing
the record step by step restores the ledger the block started from, whether the
block finished or failed part-way.  The one edit that could destroy
information is the creation of an output under a reference that is already
held, so creation is required to be fresh.
-/

namespace Vtorrent

open Std Retained

/-- The primitive changes of the state while a transaction is applied. -/
inductive Edit (governanceActive : Bool) : Applying → Applying → Prop
  | remove {state : Applying} {key : OutPoint} {utxo : Utxo}
      (held : state.utxoSet[key]? = some utxo) :
      Edit governanceActive state (state.remove key utxo)
  | add {state : Applying} {key : OutPoint} {utxo : Utxo}
      (fresh : key ∉ state.utxoSet) :
      Edit governanceActive state (state.add key utxo)
  | claim {state : Applying} {address : String}
      (unclaimed : address ∉ state.claimedAddresses) :
      Edit governanceActive state (state.claim address)
  | stake {state : Applying} (stakedDelta : Int) :
      Edit governanceActive state
        { state with journal := { state.journal with stakedDelta := stakedDelta } }
  | mint {state : Applying} (supplyDelta : UInt64) :
      Edit governanceActive state (state.mint supplyDelta)
  | govern {state : Applying} (governance : GovernanceState)
      (active : governanceActive = true) :
      Edit governanceActive state { state with governance := governance }

/-- Any number of primitive changes. -/
abbrev Edits (governanceActive : Bool) : Applying → Applying → Prop :=
  Relation.ReflTransGen (Edit governanceActive)

section Phases

variable {network : Network} {context : BlockContext} {tx : Transaction}

theorem adjustStaked_edits (counts : Bool) (change : Int) (reason : String)
    (active : Bool) (state : Applying) :
    Edits active state (final (adjustStaked counts change reason) state) := by
  unfold adjustStaked
  cases counts with
  | false => exact Relation.ReflTransGen.refl
  | true =>
      apply bind_related Relation.ReflTransGen.trans
      · exact Relation.ReflTransGen.refl
      · intro value middle ran
        obtain ⟨rfl, rfl⟩ := get_eq_ok.mp ran
        cases checked : checkedI64 (state.journal.stakedDelta + change) with
        | none => exact Relation.ReflTransGen.refl
        | some stakedDelta => exact Relation.ReflTransGen.single (.stake stakedDelta)

theorem onGovernance_edits (step : GovernanceState.Step Unit) (state : Applying) :
    Edits true state (final (onGovernance step) state) := by
  unfold final onGovernance
  cases step state.governance with
  | ok value governance => exact Relation.ReflTransGen.single (.govern governance rfl)
  | error error governance =>
      exact Relation.ReflTransGen.single (.govern governance rfl)

theorem spendUtxo_edits {index : Nat} {input : TxInput} {utxo : Utxo}
    (spent : SpentInputs) (active : Bool) {state : Applying}
    (held : state.utxoSet[input.outPoint]? = some utxo) :
    Edits active state
      (final (spendUtxo network context tx index input utxo spent) state) := by
  apply bind_related Relation.ReflTransGen.trans
  · exact Relation.ReflTransGen.single (.remove held)
  · intro _ removed _
    apply bind_related Relation.ReflTransGen.trans
    · rw [final_ofExcept]
    · intro _ authorized _
      apply bind_related Relation.ReflTransGen.trans
      · exact Relation.ReflTransGen.refl
      · intro current authorized _
        apply bind_related Relation.ReflTransGen.trans
        · exact adjustStaked_edits _ _ _ active authorized
        · intro _ _ _
          exact Relation.ReflTransGen.refl

theorem spendInput_edits (index : Nat) (input : TxInput) (spent : SpentInputs)
    (active : Bool) (state : Applying) :
    Edits active state
      (final (spendInput network context tx index input spent) state) := by
  apply bind_related Relation.ReflTransGen.trans
  · exact Relation.ReflTransGen.refl
  · intro current middle ran
    obtain ⟨rfl, rfl⟩ := get_eq_ok.mp ran
    apply bind_related Relation.ReflTransGen.trans
    · rw [final_rejectIf]
    · intro _ unlocked ran
      obtain ⟨-, rfl⟩ := rejectIf_eq_ok.mp ran
      cases held : state.utxoSet[input.outPoint]? with
      | some utxo => exact spendUtxo_edits spent active held
      | none =>
          apply bind_related Relation.ReflTransGen.trans
          · rw [final_rejectIf]
          · intro _ _ _
            exact Relation.ReflTransGen.refl

theorem spendInputs_edits (index : Nat) (inputs : List TxInput) (spent : SpentInputs)
    (active : Bool) (state : Applying) :
    Edits active state
      (final (spendInputs network context tx index inputs spent) state) := by
  induction inputs generalizing index spent state with
  | nil => exact Relation.ReflTransGen.refl
  | cons input inputs ih =>
      apply bind_related Relation.ReflTransGen.trans
      · exact spendInput_edits index input spent active state
      · intro value middle _
        exact ih (index + 1) value middle

theorem spendPhase_edits (active : Bool) (state : Applying) :
    Edits active state (final (spendPhase network context tx) state) := by
  unfold spendPhase
  split
  · exact Relation.ReflTransGen.refl
  · exact spendInputs_edits 0 tx.inputs SpentInputs.none active state

theorem recordClaim_edits (active : Bool) (state : Applying) :
    Edits active state (final (recordClaim network context tx) state) := by
  unfold recordClaim
  split
  · split
    · rw [final_rejectIf]
    · exact Relation.ReflTransGen.refl
  · rename_i address _
    apply bind_related Relation.ReflTransGen.trans
    · exact Relation.ReflTransGen.refl
    · intro current middle ran
      obtain ⟨rfl, rfl⟩ := get_eq_ok.mp ran
      apply bind_related Relation.ReflTransGen.trans
      · rw [final_rejectIf]
      · intro _ checked ran
        obtain ⟨unclaimed, rfl⟩ := rejectIf_eq_ok.mp ran
        apply bind_related Relation.ReflTransGen.trans
        · rw [final_ofExcept]
        · intro _ validated ran
          obtain ⟨-, rfl⟩ := ofExcept_eq_ok.mp ran
          exact Relation.ReflTransGen.single (.claim (of_decide_eq_false unclaimed))

theorem claimPhase_edits (active : Bool) (state : Applying) :
    Edits active state (final (claimPhase network context tx) state) := by
  unfold claimPhase
  split
  · apply bind_related Relation.ReflTransGen.trans
    · exact recordClaim_edits active state
    · intro _ middle _
      rw [final_ofExcept]
  · exact Relation.ReflTransGen.refl

theorem createOutput_edits {vout : Nat} {output : TxOutput} (active : Bool)
    {state : Applying}
    (fresh : (⟨tx.txid network.crypto, vout⟩ : OutPoint) ∉ state.utxoSet) :
    Edits active state
      (final (createOutput network context tx vout output) state) := by
  unfold createOutput
  split
  · apply bind_related Relation.ReflTransGen.trans
    · exact Relation.ReflTransGen.refl
    · intro current middle ran
      obtain ⟨rfl, rfl⟩ := get_eq_ok.mp ran
      apply bind_related Relation.ReflTransGen.trans
      · exact adjustStaked_edits _ _ _ active state
      · intro _ adjusted ran
        rw [adjustStaked_eq_ok ran]
        exact Relation.ReflTransGen.single (.add fresh)
  · exact Relation.ReflTransGen.refl

theorem createOutputs_edits {vout : Nat} {outputs : List TxOutput} (active : Bool)
    {state : Applying}
    (fresh : ∀ later, vout ≤ later →
      (⟨tx.txid network.crypto, later⟩ : OutPoint) ∉ state.utxoSet) :
    Edits active state
      (final (createOutputs network context tx vout outputs) state) := by
  induction outputs generalizing vout state with
  | nil => exact Relation.ReflTransGen.refl
  | cons output outputs ih =>
      apply bind_related Relation.ReflTransGen.trans
      · exact createOutput_edits active (fresh vout le_rfl)
      · intro _ middle ran
        apply ih
        intro later above
        rcases createOutput_eq_ok ran with ⟨-, rfl⟩ | ⟨-, rfl⟩
        · exact fresh later (by omega)
        · change _ ∉ state.utxoSet.insert _ _
          rw [ExtTreeMap.mem_insert, LawfulEqOrd.compare_eq_iff_eq]
          rintro (same | held)
          · have sameVout : vout = later := congrArg OutPoint.vout same
            omega
          · exact fresh later (by omega) held

theorem transferLock_edits (stakeInput : Option Utxo) (state : Applying) :
    Edits context.governanceActive state
      (final (transferLock network context tx stakeInput) state) := by
  unfold transferLock
  cases active : context.governanceActive with
  | false => exact Relation.ReflTransGen.refl
  | true =>
      cases stakeInput with
      | none => exact Relation.ReflTransGen.refl
      | some staked => exact onGovernance_edits _ state

/-- A transaction that gets as far as creating outputs finds none of them held
already. -/
def CreatesFresh (network : Network) (context : BlockContext) (tx : Transaction)
    (state : Applying) : Prop :=
  ∀ spent spentState claimedState,
    spendPhase network context tx state = .ok spent spentState →
    claimPhase network context tx spentState = .ok () claimedState →
    ∀ vout, (⟨tx.txid network.crypto, vout⟩ : OutPoint) ∉ state.utxoSet

theorem applyTransactionJournaled_edits_of {active : Bool} {state : Applying}
    (fresh : CreatesFresh network context tx state)
    (moves : ∀ spent spentState, spendPhase network context tx state = .ok spent spentState →
      ∀ state, Edits active state
        (final (transferLock network context tx spent.stakeInput) state)) :
    Edits active state (final (applyTransactionJournaled network context tx) state) := by
  apply bind_related Relation.ReflTransGen.trans
  · exact spendPhase_edits _ state
  · intro spent spentState spentRan
    apply bind_related Relation.ReflTransGen.trans
    · exact claimPhase_edits _ spentState
    · intro _ claimedState claimedRan
      apply bind_related Relation.ReflTransGen.trans
      · apply createOutputs_edits
        intro vout _ held
        obtain ⟨-, -, -, claimFrame⟩ := claimPhase_eq_ok claimedRan
        rw [claimFrame, (spendPhase_eq_ok spentRan).utxoSet,
          ExtTreeMap.mem_iff_isSome_getElem?, getElem?_eraseInputs] at held
        split at held
        · simp at held
        · exact fresh spent spentState claimedState spentRan claimedRan vout
            (ExtTreeMap.mem_iff_isSome_getElem?.mpr held)
      · intro _ createdState _
        apply bind_related Relation.ReflTransGen.trans
        · rw [final_ofExcept]
        · intro _ conservedState _
          apply bind_related Relation.ReflTransGen.trans
          · exact Relation.ReflTransGen.refl
          · intro current currentState _
            apply bind_related Relation.ReflTransGen.trans
            · rw [final_ofExcept]
            · intro _ stakedState _
              apply bind_related Relation.ReflTransGen.trans
              · exact moves spent spentState spentRan stakedState
              · intro _ movedState _
                exact Relation.ReflTransGen.single (.mint _)

theorem applyTransactionJournaled_edits {state : Applying}
    (fresh : CreatesFresh network context tx state) :
    Edits context.governanceActive state
      (final (applyTransactionJournaled network context tx) state) :=
  applyTransactionJournaled_edits_of fresh fun spent _ _ state =>
    transferLock_edits spent.stakeInput state

theorem governancePhase_edits (state : Applying) :
    Edits context.governanceActive state
      (final (governancePhase network context tx) state) := by
  cases active : context.governanceActive with
  | false =>
      have idle : final (governancePhase network context tx) state = state := by
        simp [final, governancePhase, active]
      rw [idle]
  | true =>
      have governed : final (governancePhase network context tx) state =
          final (onGovernance (GovernanceState.processTransaction network.crypto
            { height := context.height
              timestamp := context.timestamp
              utxos := state.utxoSet
              params := state.params
              totalStaked := state.totalStaked
              genesis := context.genesisHash } tx)) state := by
        simp [final, governancePhase, active]
      rw [governed]
      exact onGovernance_edits _ state

theorem applyTransaction_edits {state : Applying}
    (fresh : ∀ governance, CreatesFresh network context tx
      { state with governance := governance }) :
    Edits context.governanceActive state
      (final (applyTransaction network context tx) state) := by
  apply bind_related Relation.ReflTransGen.trans
  · exact governancePhase_edits state
  · intro _ governed ran
    rw [governancePhase_eq_ok ran]
    exact applyTransactionJournaled_edits (fresh governed.governance)

end Phases

theorem undoChanges_append (utxos : UtxoSet) (changes : List UtxoChange)
    (change : UtxoChange) :
    undoChanges utxos (changes ++ [change]) =
      undoChanges (undoChange utxos change) changes := by
  simp [undoChanges]

theorem undoClaims_append (claimed : Finset String) (addresses : List String)
    (address : String) :
    undoClaims claimed (addresses ++ [address]) =
      undoClaims (claimed.erase address) addresses := by
  simp [undoClaims]

/-- Rolling the journal back from this state gives the ledger before the block. -/
structure Undoable (governanceActive : Bool) (before : Ledger) (state : Applying) :
    Prop where
  utxoSet : undoChanges state.utxoSet state.journal.changes = before.utxoSet
  claimedAddresses : undoClaims state.claimedAddresses state.journal.claimedAddresses =
    before.claimedAddresses
  previousParams : state.journal.previousParams = before.params
  previousSupply : state.journal.previousSupply = before.totalSupply
  previousStaked : state.journal.previousStaked = before.totalStaked
  governance : governanceActive = false → state.governance = before.governance

namespace Undoable

variable {governanceActive : Bool} {before : Ledger} {state after : Applying}

theorem start (context : BlockContext) (before : Ledger) :
    Undoable governanceActive before (.start context before) :=
  ⟨rfl, rfl, rfl, rfl, rfl, fun _ => rfl⟩

theorem edit (undoable : Undoable governanceActive before state)
    (edited : Edit governanceActive state after) :
    Undoable governanceActive before after := by
  cases edited with
  | remove held =>
      refine ⟨?_, undoable.claimedAddresses, undoable.previousParams,
        undoable.previousSupply, undoable.previousStaked, undoable.governance⟩
      rw [Applying.remove, undoChanges_append, undoChange, FiniteMap.insert_erase held]
      exact undoable.utxoSet
  | add fresh =>
      refine ⟨?_, undoable.claimedAddresses, undoable.previousParams,
        undoable.previousSupply, undoable.previousStaked, undoable.governance⟩
      rw [Applying.add, undoChanges_append, undoChange, FiniteMap.erase_insert fresh]
      exact undoable.utxoSet
  | claim unclaimed =>
      refine ⟨undoable.utxoSet, ?_, undoable.previousParams,
        undoable.previousSupply, undoable.previousStaked, undoable.governance⟩
      rw [Applying.claim, undoClaims_append, Finset.erase_insert unclaimed]
      exact undoable.claimedAddresses
  | stake stakedDelta =>
      exact ⟨undoable.utxoSet, undoable.claimedAddresses, undoable.previousParams,
        undoable.previousSupply, undoable.previousStaked, undoable.governance⟩
  | mint supplyDelta =>
      exact ⟨undoable.utxoSet, undoable.claimedAddresses, undoable.previousParams,
        undoable.previousSupply, undoable.previousStaked, undoable.governance⟩
  | govern governance active =>
      refine ⟨undoable.utxoSet, undoable.claimedAddresses, undoable.previousParams,
        undoable.previousSupply, undoable.previousStaked, fun inactive => ?_⟩
      simp [active] at inactive

theorem edits (undoable : Undoable governanceActive before state)
    (edited : Edits governanceActive state after) :
    Undoable governanceActive before after := by
  induction edited with
  | refl => exact undoable
  | tail _ last ih => exact ih.edit last

theorem beginGovernanceBlock {context : BlockContext}
    (undoable : Undoable context.governanceActive before state) :
    Undoable context.governanceActive before
      (final (beginGovernanceBlock context) state) := by
  unfold Vtorrent.beginGovernanceBlock
  rw [final_modify]
  split
  · rename_i active
    refine ⟨undoable.utxoSet, undoable.claimedAddresses, undoable.previousParams,
      undoable.previousSupply, undoable.previousStaked, fun inactive => ?_⟩
    simp [active] at inactive
  · exact undoable

theorem commit (undoable : Undoable governanceActive before state) (crypto : Crypto) :
    Undoable governanceActive before (state.commit crypto) :=
  ⟨undoable.utxoSet, undoable.claimedAddresses, undoable.previousParams,
    undoable.previousSupply, undoable.previousStaked, undoable.governance⟩

theorem rollback {context : BlockContext}
    (undoable : Undoable context.governanceActive before state) :
    rollbackJournal state.toLedger (finishJournal context before state) = before := by
  apply Ledger.ext
  · exact undoable.utxoSet
  · exact undoable.claimedAddresses
  · exact undoable.previousSupply
  · exact undoable.previousStaked
  · exact undoable.previousParams
  · cases active : context.governanceActive with
    | false =>
        have unchanged := undoable.governance active
        simpa [rollbackJournal, finishJournal, active] using unchanged
    | true =>
        simpa [rollbackJournal, finishJournal, active] using
          GovernanceState.restoreUndo_undoSince state.governance before.governance

end Undoable

end Vtorrent
