import Vtorrent.MempoolEvictions

/-!
# Admission to the mempool

What one call of `add_transaction_with_fee` can do: refuse the transaction before anything
changes, find that it is there already, or replace its conflicts, make room and insert it.
The last step keeps the indexes exact because nothing that is left uses an input or the
claim of the new entry.
-/

namespace Vtorrent

open Lineages
open Std (ExtTreeMap)

namespace Mempool

variable {crypto : Crypto} {pool : Mempool} {tx : Transaction} {feeSats : UInt64} {now : Nat}

structure Passes (crypto : Crypto) (pool : Mempool) (tx : Transaction) (feeSats : UInt64) :
    Prop where
  policy : pool.checkPolicy crypto tx feeSats = .ok ()
  new : pool.entries[tx.txid crypto]? = none
  replacement : pool.checkReplacement tx feeSats = .ok ()

def finish (crypto : Crypto) (tx : Transaction) (feeSats : UInt64) (now : Nat)
    (roomy : Mempool) : Mempool :=
  roomy.decayFeeRate.insertEntry (tx.txid crypto) (newEntry tx feeSats now)

def clear (pool : Mempool) (tx : Transaction) (feeSats : UInt64) :
    EStateM.Result NodeError Mempool (List Hash) :=
  makeRoom tx.serializedSize (feeRateOf feeSats tx.serializedSize) (pool.entries.size + 1) pool

theorem admitReplaced_eq :
    admitReplaced crypto tx feeSats now pool =
      if tx.serializedSize > pool.maxBytes then
        .error (.policyRejected ("Transaction size " ++ toString tx.serializedSize ++
          " bytes exceeds the mempool byte budget " ++ toString pool.maxBytes ++ " bytes")) pool
      else
        match pool.clear tx feeSats with
        | .ok victims roomy => .ok victims (finish crypto tx feeSats now roomy)
        | .error error after => .error error after := by
  rw [admitReplaced, Retained.run_get_bind, Retained.run_bind]
  by_cases large : tx.serializedSize > pool.maxBytes
  · simp only [large, decide_true, if_true]
    rfl
  · simp only [large, decide_false, if_false]
    change (makeRoom _ _ _ >>= _ : Step (List Hash)) pool = _
    rw [Retained.run_bind]
    unfold clear
    cases makeRoom tx.serializedSize (feeRateOf feeSats tx.serializedSize)
      (pool.entries.size + 1) pool <;> rfl

theorem addReportingVictims_cases :
    (¬ Passes crypto pool tx feeSats ∧
        ((∃ error, addReportingVictims crypto tx feeSats now pool = .error error pool) ∨
          ((∃ entry, pool.entries[tx.txid crypto]? = some entry) ∧
            addReportingVictims crypto tx feeSats now pool = .ok [] pool))) ∨
      (Passes crypto pool tx feeSats ∧
        addReportingVictims crypto tx feeSats now pool =
          admitReplaced crypto tx feeSats now (pool.replace tx)) := by
  rw [addReportingVictims, Retained.run_get_bind, Retained.run_ofExcept_bind]
  cases policy : pool.checkPolicy crypto tx feeSats with
  | error error =>
      refine .inl ⟨fun passes => ?_, .inl ⟨error, rfl⟩⟩
      simpa [policy] using passes.policy
  | ok passed =>
      dsimp only
      cases held : pool.entries[tx.txid crypto]? with
      | some entry =>
          have contained : pool.entries.contains (tx.txid crypto) = true := by
            rw [ExtTreeMap.contains_eq_isSome_getElem?, held]
            rfl
          refine .inl ⟨fun passes => ?_, .inr ⟨⟨entry, rfl⟩, by rw [if_pos contained]; rfl⟩⟩
          simpa [held] using passes.new
      | none =>
          have absent : ¬ pool.entries.contains (tx.txid crypto) = true := by
            rw [ExtTreeMap.contains_eq_isSome_getElem?, held]
            simp
          rw [if_neg absent]
          cases replacement : pool.checkReplacement tx feeSats with
          | ok checked =>
              refine .inr ⟨⟨policy, held, replacement⟩, ?_⟩
              rw [admitNew, Retained.run_get_bind, Retained.run_ofExcept_bind, replacement]
              rfl
          | error error =>
              refine .inl ⟨fun passes => ?_, .inl ⟨error, ?_⟩⟩
              · simpa [replacement] using passes.replacement
              · rw [admitNew, Retained.run_get_bind, Retained.run_ofExcept_bind, replacement]

section Insertion

theorem Indexed.insertEntry (indexed : pool.Indexed crypto) {txid : Hash}
    {entry : MempoolEntry} (keyed : entry.tx.txid crypto = txid)
    (admissible : Admissible entry) (new : pool.entries[txid]? = none)
    (unspent : ∀ input ∈ entry.tx.inputs, ∀ other, ¬ pool.Uses other input.outPoint)
    (unclaimed : ∀ address, entry.tx.pendingClaim = some address →
      ∀ other, ¬ pool.Claims other address) :
    (pool.insertEntry txid entry).Indexed crypto := by
  have lookup : ∀ other : Hash, (pool.insertEntry txid entry).entries[other]? =
      if txid = other then some entry else pool.entries[other]? := by
    intro other
    rw [Mempool.insertEntry, ExtTreeMap.getElem?_insert]
    simp only [Std.LawfulEqOrd.compare_eq_iff_eq]
  constructor
  case keyed =>
    intro other held
    rw [lookup]
    split
    · rintro ⟨⟩
      rename_i same
      rw [keyed, same]
    · exact indexed.keyed other held
  case admissible =>
    intro other held
    rw [lookup]
    split
    · rintro ⟨⟩
      exact admissible
    · exact indexed.admissible other held
  case spent =>
    intro outPoint owner
    have recorded : (pool.insertEntry txid entry).spentInputs[outPoint]? =
        if ∃ input ∈ entry.tx.inputs, input.outPoint = outPoint then some txid
        else pool.spentInputs[outPoint]? :=
      FiniteMap.getElem?_foldl_insert TxInput.outPoint txid entry.tx.inputs pool.spentInputs
        outPoint
    rw [recorded]
    simp only [Uses, lookup]
    by_cases mine : ∃ input ∈ entry.tx.inputs, input.outPoint = outPoint
    · rw [if_pos mine]
      obtain ⟨input, member, rfl⟩ := mine
      by_cases same : txid = owner
      · subst same
        simp only [if_true, Option.some.injEq, true_iff]
        exact ⟨entry, rfl, input, member, rfl⟩
      · simp only [Option.some.injEq, same, if_false, false_iff]
        exact unspent input member owner
    · rw [if_neg mine, indexed.spent]
      by_cases same : txid = owner
      · subst same
        simp [Uses, new, mine]
      · simp [same, Uses]
  case claims =>
    intro address owner
    simp only [Claims, lookup]
    have recorded : (pool.insertEntry txid entry).pendingClaims[address]? =
        if entry.tx.pendingClaim = some address then some txid
        else pool.pendingClaims[address]? := by
      unfold Mempool.insertEntry recordPendingClaim
      cases entry.tx.pendingClaim with
      | none => simp
      | some claimed => simp [ExtTreeMap.getElem?_insert]
    rw [recorded]
    by_cases mine : entry.tx.pendingClaim = some address
    · by_cases same : txid = owner
      · simp [mine, same]
      · simp only [mine, if_true, Option.some.injEq, same, if_false, false_iff]
        exact unclaimed address mine owner
    · rw [if_neg mine, indexed.claims]
      by_cases same : txid = owner
      · subst same
        simp [Claims, new, mine]
      · simp [same, Claims]

theorem admissible_of_policy (policy : pool.checkPolicy crypto tx feeSats = .ok ()) :
    Admissible (newEntry tx feeSats now) := by
  simp only [checkPolicy, checkFee, Checked.bind_eq_ok, Checked.rejectIf_eq_ok,
    Bool.and_eq_false_iff, Bool.not_eq_false', decide_eq_false_iff_not] at policy
  obtain ⟨⟨⟩, valid, -, -, -, -, -, fee, -⟩ := policy
  refine ⟨valid, fun ordinary => ?_, rfl⟩
  rcases fee with claim | enough
  · exact absurd claim (by simp [newEntry] at ordinary; simp [ordinary])
  · exact UInt64.not_lt.mp enough

theorem unclaimed_of_policy (indexed : pool.Indexed crypto)
    (policy : pool.checkPolicy crypto tx feeSats = .ok ())
    (new : pool.entries[tx.txid crypto]? = none) {address : String}
    (claim : tx.pendingClaim = some address) (other : Hash) : ¬ pool.Claims other address := by
  simp only [checkPolicy, checkClaim, claim, Checked.bind_eq_ok] at policy
  obtain ⟨⟨⟩, -, ⟨⟩, -, ⟨⟩, checked, -⟩ := policy
  intro claims
  have recorded := (indexed.claims address other).mpr claims
  rw [recorded, Checked.rejectIf_eq_ok, decide_eq_false_iff_not, not_not] at checked
  obtain ⟨entry, held, -⟩ := claims
  rw [checked, new] at held
  cases held

end Insertion

section Trimming

def Trims (pool after : Mempool) : Prop :=
  ∃ roots floor, after = (pool.without (lineage pool.Spends roots)).withFloor floor

variable {after : Mempool}

theorem Indexed.trims_self (indexed : pool.Indexed crypto) : pool.Trims pool :=
  ⟨∅, pool.minFeeRate, by rw [indexed.without_lineage_empty]; rfl⟩

theorem Trims.trans {last : Mempool} (first : pool.Trims after) (second : after.Trims last) :
    pool.Trims last := by
  obtain ⟨roots, floor, rfl⟩ := first
  obtain ⟨more, lastFloor, rfl⟩ := second
  exact ⟨roots ∪ more, lastFloor, by rw [without_after_eviction]; rfl⟩

theorem Trims.indexed (trims : pool.Trims after) (indexed : pool.Indexed crypto) :
    after.Indexed crypto := by
  obtain ⟨roots, floor, rfl⟩ := trims
  exact (indexed.without _).withFloor floor

theorem Trims.held (trims : pool.Trims after) {txid : Hash} {entry : MempoolEntry}
    (held : after.entries[txid]? = some entry) : pool.entries[txid]? = some entry := by
  obtain ⟨roots, floor, rfl⟩ := trims
  exact (entries_without_eq_some.mp held).2

theorem Trims.uses (trims : pool.Trims after) {txid : Hash} {outPoint : OutPoint}
    (used : after.Uses txid outPoint) : pool.Uses txid outPoint := by
  obtain ⟨entry, held, input⟩ := used
  exact ⟨entry, trims.held held, input⟩

theorem Trims.claims (trims : pool.Trims after) {txid : Hash} {address : String}
    (claimed : after.Claims txid address) : pool.Claims txid address := by
  obtain ⟨entry, held, claim⟩ := claimed
  exact ⟨entry, trims.held held, claim⟩

theorem Trims.limits (trims : pool.Trims after) :
    after.maxSize = pool.maxSize ∧ after.maxBytes = pool.maxBytes := by
  obtain ⟨roots, floor, rfl⟩ := trims
  exact ⟨rfl, rfl⟩

theorem Trims.size_le (trims : pool.Trims after) : after.entries.size ≤ pool.entries.size := by
  obtain ⟨roots, floor, rfl⟩ := trims
  exact ExtTreeMap.size_filter_le_size

theorem Trims.totalBytes_le (trims : pool.Trims after) : after.totalBytes ≤ pool.totalBytes := by
  obtain ⟨roots, floor, rfl⟩ := trims
  exact FiniteMap.total_filter_le _ _ _

/-- What was removed took everything along that spends its outputs. -/
theorem Trims.no_orphans (trims : pool.Trims after) {parent child : Hash}
    {entry : MempoolEntry} (held : pool.entries[parent]? = some entry)
    (gone : after.entries[parent]? = none) : ¬ after.Spends parent child := by
  obtain ⟨roots, floor, rfl⟩ := trims
  intro spends
  obtain ⟨step, left⟩ : outside pool.Spends (lineage pool.Spends roots) parent child := by
    rw [← spends_without]
    exact spends
  have removed : parent ∈ lineage pool.Spends roots := by
    by_contra stays
    have kept : (pool.without (lineage pool.Spends roots)).entries[parent]? = some entry :=
      entries_without_eq_some.mpr ⟨stays, held⟩
    rw [show (pool.without (lineage pool.Spends roots)).entries[parent]? = none from gone] at kept
    cases kept
  exact left (lineage_closed removed step)

theorem Indexed.trims_replace (indexed : pool.Indexed crypto) (tx : Transaction) :
    pool.Trims (pool.replace tx) :=
  ⟨pool.Conflicting tx, pool.minFeeRate, by rw [indexed.replace]; rfl⟩

theorem Indexed.trims_makeRoom (indexed : pool.Indexed crypto) {sizeBytes feeRate fuel : Nat} :
    pool.Trims (Retained.final (makeRoom sizeBytes feeRate fuel) pool) :=
  indexed.makeRoom_final

theorem Indexed.trims_decayFeeRate (indexed : pool.Indexed crypto) :
    pool.Trims pool.decayFeeRate := by
  unfold decayFeeRate
  split
  · exact ⟨∅, pool.minFeeRate - 1, by rw [indexed.without_lineage_empty]⟩
  · exact indexed.trims_self

theorem Indexed.unused_replace (indexed : pool.Indexed crypto) {input : TxInput}
    (member : input ∈ tx.inputs) (txid : Hash) :
    ¬ (pool.replace tx).Uses txid input.outPoint := by
  rw [indexed.replace, beside, uses_without]
  rintro ⟨left, used⟩
  exact left (subset_lineage ⟨input, member, used⟩)

end Trimming

section Outcome

/-- What is left when the new entry goes in. -/
structure Roomy (crypto : Crypto) (pool : Mempool) (tx : Transaction) (feeSats : UInt64)
    (victims : List Hash) (roomy : Mempool) : Prop where
  passes : Passes crypto pool tx feeSats
  fits : tx.serializedSize ≤ (pool.replace tx).maxBytes
  cleared : (pool.replace tx).clear tx feeSats = .ok victims roomy

theorem addReportingVictims_eq_ok {victims : List Hash} {after : Mempool}
    (ran : addReportingVictims crypto tx feeSats now pool = .ok victims after) :
    ((∃ entry, pool.entries[tx.txid crypto]? = some entry) ∧ victims = [] ∧ after = pool) ∨
      ∃ roomy, Roomy crypto pool tx feeSats victims roomy ∧
        after = finish crypto tx feeSats now roomy := by
  rcases @addReportingVictims_cases crypto pool tx feeSats now with
    ⟨-, ⟨error, failed⟩ | ⟨known, found⟩⟩ | ⟨passes, replaced⟩
  · rw [failed] at ran
    cases ran
  · rw [found] at ran
    cases ran
    exact .inl ⟨known, rfl, rfl⟩
  · rw [replaced, admitReplaced_eq] at ran
    split at ran
    · cases ran
    · next fits =>
        split at ran
        · next listed roomy cleared =>
            cases ran
            exact .inr ⟨roomy, ⟨passes, Nat.le_of_not_lt fits, cleared⟩, rfl⟩
        · cases ran

theorem Indexed.addReportingVictims_eq_error (indexed : pool.Indexed crypto)
    {error : NodeError} {after : Mempool}
    (ran : addReportingVictims crypto tx feeSats now pool = .error error after) :
    pool.Trims after := by
  rcases @addReportingVictims_cases crypto pool tx feeSats now with
    ⟨-, ⟨reason, failed⟩ | ⟨-, found⟩⟩ | ⟨-, replaced⟩
  · rw [failed] at ran
    cases ran
    exact indexed.trims_self
  · rw [found] at ran
    cases ran
  · have trimmed := indexed.trims_replace tx
    rw [replaced, admitReplaced_eq] at ran
    split at ran
    · cases ran
      exact trimmed
    · split at ran
      · cases ran
      · next reason left cleared =>
          cases ran
          unfold clear at cleared
          refine trimmed.trans ?_
          rw [← Retained.final_of_error cleared]
          exact (trimmed.indexed indexed).trims_makeRoom

theorem final_addTransactionWithFee :
    Retained.final (addTransactionWithFee crypto tx feeSats now) pool =
      Retained.final (addReportingVictims crypto tx feeSats now) pool :=
  Retained.final_bind_pure _ _ _

theorem Indexed.add_final_cases (indexed : pool.Indexed crypto) :
    pool.Trims (Retained.final (addTransactionWithFee crypto tx feeSats now) pool) ∨
      ∃ victims roomy, Roomy crypto pool tx feeSats victims roomy ∧
        Retained.final (addTransactionWithFee crypto tx feeSats now) pool =
          finish crypto tx feeSats now roomy := by
  rw [final_addTransactionWithFee]
  cases ran : addReportingVictims crypto tx feeSats now pool with
  | error error after =>
      rw [Retained.final_of_error ran]
      exact .inl (indexed.addReportingVictims_eq_error ran)
  | ok victims after =>
      rw [Retained.final_of_ok ran]
      rcases addReportingVictims_eq_ok ran with ⟨-, -, rfl⟩ | ⟨roomy, made, rfl⟩
      · exact .inl indexed.trims_self
      · exact .inr ⟨victims, roomy, made, rfl⟩

/-- Admission through the chain's checks stops there, or adds the transaction with the
fee that the chain confirms. -/
theorem admit_final_cases (network : Network) (chain : Chain) :
    Retained.final (admitWithChainFee network chain now tx) pool = pool ∨
      ∃ fee, checkAgainstChain network chain tx = .ok fee ∧
        Retained.final (admitWithChainFee network chain now tx) pool =
          Retained.final (addTransactionWithFee network.crypto tx fee now) pool := by
  rw [admitWithChainFee, Retained.final_ofExcept_bind]
  split
  · next fee checked =>
      rw [Retained.final_bind_pure]
      exact .inr ⟨fee, checked, rfl⟩
  · exact .inl rfl

variable {victims : List Hash} {roomy : Mempool}

theorem Roomy.trims_replaced (made : Roomy crypto pool tx feeSats victims roomy)
    (indexed : pool.Indexed crypto) : (pool.replace tx).Trims roomy := by
  have cleared := made.cleared
  unfold clear at cleared
  rw [← Retained.final_of_ok cleared]
  exact ((indexed.trims_replace tx).indexed indexed).trims_makeRoom

theorem Roomy.trims (made : Roomy crypto pool tx feeSats victims roomy)
    (indexed : pool.Indexed crypto) : pool.Trims roomy.decayFeeRate := by
  have trimmed := (indexed.trims_replace tx).trans (made.trims_replaced indexed)
  exact trimmed.trans (trimmed.indexed indexed).trims_decayFeeRate

theorem Roomy.indexed (made : Roomy crypto pool tx feeSats victims roomy)
    (indexed : pool.Indexed crypto) : (finish crypto tx feeSats now roomy).Indexed crypto := by
  have trims := made.trims indexed
  have replaced := made.trims_replaced indexed
  have roomyIndexed := replaced.indexed ((indexed.trims_replace tx).indexed indexed)
  refine (trims.indexed indexed).insertEntry rfl (admissible_of_policy made.passes.policy) ?_ ?_ ?_
  · cases held : roomy.decayFeeRate.entries[tx.txid crypto]? with
    | none => rfl
    | some entry =>
        have before := trims.held held
        rw [made.passes.new] at before
        cases before
  · intro input member other used
    exact indexed.unused_replace member other
      (replaced.uses (roomyIndexed.trims_decayFeeRate.uses used))
  · intro address claim other claims
    exact unclaimed_of_policy indexed made.passes.policy made.passes.new claim other
      (trims.claims claims)

theorem Indexed.add (indexed : pool.Indexed crypto) :
    (Retained.final (addTransactionWithFee crypto tx feeSats now) pool).Indexed crypto := by
  rcases @Indexed.add_final_cases crypto pool tx feeSats now indexed with
    trims | ⟨victims, roomy, made, final⟩
  · exact trims.indexed indexed
  · rw [final]
    exact made.indexed indexed

theorem Indexed.admission {network : Network} (indexed : pool.Indexed network.crypto)
    (chain : Chain) :
    (Retained.final (admitWithChainFee network chain now tx) pool).Indexed network.crypto := by
  rcases @admit_final_cases pool tx now network chain with final | ⟨fee, -, final⟩
  · rw [final]
    exact indexed
  · rw [final]
    exact indexed.add

/-- There is room for the new entry, or nothing else is left. -/
theorem Roomy.settled (made : Roomy crypto pool tx feeSats victims roomy)
    (indexed : pool.Indexed crypto) : roomy.Settled tx.serializedSize := by
  have replaced := (indexed.trims_replace tx).indexed indexed
  rcases replaced.makeRoom_eq_ok (Nat.lt_succ_self _) made.cleared with
    ⟨settled, -, rfl⟩ | ⟨-, last, entry, room⟩
  · exact settled
  · rw [room.left]
    exact room.marginal.room

end Outcome

end Mempool

end Vtorrent
