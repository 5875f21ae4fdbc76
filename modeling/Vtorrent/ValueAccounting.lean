import Vtorrent.LedgerHistory

/-!
# Totals over the unspent outputs

A transaction that creates its outputs under a fresh id changes every total over the
UTXO set by what it spends and what it creates, whatever weight is counted.
-/

namespace Vtorrent

open Std Retained FiniteMap

theorem total_eraseInputs (weight : Utxo → Nat) (utxos : UtxoSet) (index : Nat)
    (inputs : List TxInput) :
    ((spentBy utxos index inputs).map fun spending => weight spending.utxo).sum +
      total weight (eraseInputs utxos inputs) = total weight utxos := by
  induction inputs generalizing utxos index with
  | nil => simp [spentBy, eraseInputs]
  | cons input inputs ih =>
      have unfolded : eraseInputs utxos (input :: inputs) =
          eraseInputs (utxos.erase input.outPoint) inputs := rfl
      rw [unfolded, spentBy]
      cases held : utxos[input.outPoint]? with
      | none =>
          rw [erase_eq_self held]
          exact ih utxos (index + 1)
      | some utxo =>
          rw [← total_erase weight held, List.map_cons, List.sum_cons, Nat.add_assoc,
            ih (utxos.erase input.outPoint) (index + 1)]

theorem total_insertUtxos (weight : Utxo → Nat) {utxos : UtxoSet} {created : List Utxo}
    (nodup : (created.map Utxo.outPoint).Nodup)
    (fresh : ∀ utxo ∈ created, utxo.outPoint ∉ utxos) :
    total weight (insertUtxos utxos created) =
      (created.map weight).sum + total weight utxos := by
  induction created generalizing utxos with
  | nil => simp [insertUtxos]
  | cons utxo created ih =>
      rw [List.map_cons, List.nodup_cons] at nodup
      have unfolded : insertUtxos utxos (utxo :: created) =
          insertUtxos (utxos.insert utxo.outPoint utxo) created := rfl
      have stillFresh : ∀ other ∈ created,
          other.outPoint ∉ utxos.insert utxo.outPoint utxo := by
        intro other member held
        rw [ExtTreeMap.mem_insert, LawfulEqOrd.compare_eq_iff_eq] at held
        rcases held with same | old
        · exact nodup.1 (same ▸ List.mem_map_of_mem member)
        · exact fresh other (List.mem_cons_of_mem _ member) old
      rw [unfolded, ih nodup.2 stillFresh, total_insert weight utxo
        (fresh utxo List.mem_cons_self), List.map_cons, List.sum_cons]
      omega

theorem held_of_insertUtxos {utxos : UtxoSet} {created : List Utxo} {key : OutPoint}
    {utxo : Utxo} (held : (insertUtxos utxos created)[key]? = some utxo) :
    utxo ∈ created ∧ utxo.outPoint = key ∨ utxos[key]? = some utxo := by
  induction created generalizing utxos with
  | nil => exact .inr held
  | cons first created ih =>
      have unfolded : insertUtxos utxos (first :: created) =
          insertUtxos (utxos.insert first.outPoint first) created := rfl
      rw [unfolded] at held
      rcases ih held with ⟨member, keyed⟩ | old
      · exact .inl ⟨List.mem_cons_of_mem _ member, keyed⟩
      · rw [ExtTreeMap.getElem?_insert] at old
        split at old
        · rename_i same
          cases old
          exact .inl ⟨List.mem_cons_self, LawfulEqOrd.compare_eq_iff_eq.mp same⟩
        · exact .inr old

section Created

variable {network : Network} {context : BlockContext} {tx : Transaction}

theorem mem_createdBy {vout : Nat} {outputs : List TxOutput} {utxo : Utxo}
    (member : utxo ∈ createdBy network context tx vout outputs) :
    ∃ i output, outputs[i]? = some output ∧
      isUtxoEligible output tx context.height = true ∧
      utxo = createdUtxo network context tx (vout + i) output := by
  induction outputs generalizing vout with
  | nil => simp [createdBy] at member
  | cons first outputs ih =>
      have later : utxo ∈ createdBy network context tx (vout + 1) outputs →
          ∃ i output, (first :: outputs)[i]? = some output ∧
            isUtxoEligible output tx context.height = true ∧
            utxo = createdUtxo network context tx (vout + i) output := by
        intro rest
        obtain ⟨i, output, found, eligible, same⟩ := ih rest
        exact ⟨i + 1, output, found, eligible, by rw [same]; congr 1; omega⟩
      rw [createdBy] at member
      split at member
      · rename_i eligible
        rcases List.mem_cons.mp member with rfl | rest
        · exact ⟨0, first, rfl, eligible, rfl⟩
        · exact later rest
      · exact later member

theorem createdBy_sorted (vout : Nat) (outputs : List TxOutput) :
    (createdBy network context tx vout outputs).Pairwise
      (fun first second => first.vout < second.vout) := by
  induction outputs generalizing vout with
  | nil => exact .nil
  | cons first outputs ih =>
      rw [createdBy]
      split
      · refine List.pairwise_cons.mpr ⟨?_, ih (vout + 1)⟩
        intro utxo member
        obtain ⟨i, output, -, -, rfl⟩ := mem_createdBy member
        change vout < vout + 1 + i
        omega
      · exact ih (vout + 1)

theorem createdBy_nodup (vout : Nat) (outputs : List TxOutput) :
    ((createdBy network context tx vout outputs).map Utxo.outPoint).Nodup := by
  rw [List.Nodup, List.pairwise_map]
  refine (createdBy_sorted vout outputs).imp ?_
  intro first second less same
  exact Nat.ne_of_lt less (congrArg OutPoint.vout same)

theorem sum_createdBy_le {weight : Utxo → Nat}
    (bounded : ∀ utxo : Utxo, weight utxo ≤ utxo.value.toNat) (vout : Nat)
    (outputs : List TxOutput) :
    ((createdBy network context tx vout outputs).map weight).sum ≤
      (outputs.map fun output => output.value.toNat).sum := by
  induction outputs generalizing vout with
  | nil => simp [createdBy]
  | cons first outputs ih =>
      rw [createdBy, List.map_cons, List.sum_cons]
      split
      · rw [List.map_cons, List.sum_cons]
        exact Nat.add_le_add (bounded _) (ih (vout + 1))
      · exact (ih (vout + 1)).trans (Nat.le_add_left _ _)

end Created

/-- No output of the transaction is held yet. -/
def FreshTxid (crypto : Crypto) (tx : Transaction) (utxos : UtxoSet) : Prop :=
  ∀ vout, (⟨tx.txid crypto, vout⟩ : OutPoint) ∉ utxos

section Effect

variable {network : Network} {context : BlockContext} {tx : Transaction}
  {state after : Applying}

theorem Effect.total (effect : Effect network context tx state after)
    (fresh : FreshTxid network.crypto tx state.utxoSet) (weight : Utxo → Nat) :
    total weight after.utxoSet +
        ((spentBy state.utxoSet 0 tx.spendable).map fun spending =>
          weight spending.utxo).sum =
      total weight state.utxoSet +
        ((createdBy network context tx 0 tx.outputs).map weight).sum := by
  have unheld : ∀ utxo ∈ createdBy network context tx 0 tx.outputs,
      utxo.outPoint ∉ eraseInputs state.utxoSet tx.spendable := by
    intro utxo member held
    have keyed := txid_of_createdBy member
    apply fresh utxo.vout
    rw [← keyed]
    exact (mem_eraseInputs.mp held).2
  have created := total_insertUtxos weight (createdBy_nodup 0 tx.outputs) unheld
  have spent := total_eraseInputs weight state.utxoSet 0 tx.spendable
  rw [effect.utxoSet, created]
  omega

theorem Effect.held (effect : Effect network context tx state after) {key : OutPoint}
    {utxo : Utxo} (held : after.utxoSet[key]? = some utxo) :
    utxo ∈ createdBy network context tx 0 tx.outputs ∧ utxo.outPoint = key ∨
      state.utxoSet[key]? = some utxo := by
  rw [effect.utxoSet] at held
  rcases held_of_insertUtxos held with new | old
  · exact .inl new
  · rw [getElem?_eraseInputs] at old
    split at old
    · cases old
    · exact .inr old

end Effect

theorem History.applyTransactions_invariant {network : Network} {context : BlockContext}
    {pool applied txs : List Transaction} {state after : Applying} {result : Unit}
    (holds : Applying → Prop)
    (history : History network.crypto pool applied state.utxoSet state.claimedAddresses)
    (distinct : DistinctTxids network.crypto pool) (subset : ∀ tx ∈ txs, tx ∈ pool)
    (unrepeated : Unrepeated applied txs)
    (step : ∀ tx ∈ txs, ∀ state after, Effect network context tx state after →
      FreshTxid network.crypto tx state.utxoSet → holds state → holds after)
    (ran : Vtorrent.applyTransactions network context txs state = .ok result after)
    (start : holds state) : holds after := by
  induction txs generalizing applied state with
  | nil =>
      obtain ⟨-, rfl⟩ := pure_eq_ok.mp ran
      exact start
  | cons tx txs ih =>
      rw [Vtorrent.applyTransactions, bind_eq_ok] at ran
      obtain ⟨_, middle, first, rest⟩ := ran
      have effect := applyTransaction_eq_ok first
      have inPool := subset tx List.mem_cons_self
      have fresh : FreshTxid network.crypto tx state.utxoSet :=
        history.fresh tx inPool (history.notApplied unrepeated.1 effect.found
          fun address claim => (effect.claims address claim).1)
      exact ih (history.effect distinct inPool unrepeated.1 effect)
        (fun other member => subset other (List.mem_cons_of_mem _ member)) unrepeated.2
        (fun other member => step other (List.mem_cons_of_mem _ member)) rest
        (step tx List.mem_cons_self state middle effect fresh start)

end Vtorrent
