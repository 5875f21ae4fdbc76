import Vtorrent.MempoolRuns

/-!
# Entries whose parents are gone

An entry is orphaned by an operation that removes a transaction it spends from, unless that
transaction was confirmed.  Replacement and eviction remove whole lineages; the removal of
stale entries and of entries that a block conflicts with does not, and a new entry may
itself spend from what was removed to let it in.
-/

namespace Vtorrent

open Lineages
open Std (ExtTreeMap)

namespace Mempool

variable {network : Network} {crypto : Crypto} {pool : Mempool} {after : Mempool}

/-- No entry spends an output of a transaction that was removed without being
confirmed. -/
def NoOrphans (before after : Mempool) (confirmed : Hash → Prop) : Prop :=
  ∀ parent child, (∃ entry, before.entries[parent]? = some entry) →
    after.entries[parent]? = none → ¬ confirmed parent → ¬ after.Spends parent child

/-- The transactions that an operation learns to be confirmed: those it is told about, or
those with an unspent output on the chain it is given. -/
def Operation.Confirms : Operation → Hash → Prop
  | .add _ _ _, _ => False
  | .remove removed, txid => txid = removed
  | .confirm confirmedTxids _, txid => txid ∈ confirmedTxids
  | .reorg chain _ _, txid => ∃ vout, (⟨txid, vout⟩ : OutPoint) ∈ chain.utxoSet
  | .evictStale _, _ => False

def Names (tx : Transaction) (parent : Hash) : Prop :=
  ∃ input ∈ tx.inputs, input.prevTxid = parent

/-- An entry that has to go to let a transaction in: it conflicts with the transaction or
descends from a conflicting entry, or it goes to make room. -/
def Displaces (pool : Mempool) (tx : Transaction) (parent : Hash) : Prop :=
  parent ∈ lineage pool.Spends (pool.Conflicting tx) ∨
    (¬ (pool.beside tx).Settled tx.serializedSize ∧
      ∃ last entry, (pool.beside tx).Marginal tx.serializedSize last entry ∧
        parent ∈ (pool.beside tx).shed (evictionRank last entry))

def Stale (pool : Mempool) (nowSecs : Nat) (txid : Hash) : Prop :=
  ∃ entry, pool.entries[txid]? = some entry ∧ staleTxTtlSecs < nowSecs - entry.receivedAt

/-- An entry that spends one of some outputs. -/
def UsesAny (pool : Mempool) (outPoints : List OutPoint) (txid : Hash) : Prop :=
  ∃ outPoint ∈ outPoints, pool.Uses txid outPoint

/-- When an operation orphans no entry. -/
def Operation.KeepsParents (network : Network) (pool : Mempool) : Operation → Prop
  | .add tx feeSats now =>
      (∃ after, addTransactionWithFee network.crypto tx feeSats now pool = .ok () after) →
        pool.entries[tx.txid network.crypto]? = none →
          ∀ parent, Names tx parent → (∃ entry, pool.entries[parent]? = some entry) →
            ¬ pool.Displaces tx parent
  | .remove _ => True
  | .confirm confirmedTxids spentOutpoints =>
      ∀ parent child, parent ∉ confirmedTxids → pool.UsesAny spentOutpoints parent →
        pool.Spends parent child →
          child ∈ confirmedTxids ∨ pool.UsesAny spentOutpoints child
  | .reorg _ _ _ => True
  | .evictStale nowSecs =>
      ∀ parent child, pool.Stale nowSecs parent → pool.Spends parent child →
        pool.Stale nowSecs child

section Removals

/-- Removing a set orphans nothing exactly when no child of a member stays. -/
theorem noOrphans_without_iff {removed : Set Hash} {confirmed : Hash → Prop} :
    NoOrphans pool (pool.without removed) confirmed ↔
      ∀ parent child, (∃ entry, pool.entries[parent]? = some entry) → parent ∈ removed →
        ¬ confirmed parent → pool.Spends parent child → child ∈ removed := by
  have spends : ∀ parent child, (pool.without removed).Spends parent child ↔
      pool.Spends parent child ∧ child ∉ removed := by
    intro parent child
    rw [spends_without]
    rfl
  have gone : ∀ parent, (∃ entry, pool.entries[parent]? = some entry) →
      ((pool.without removed).entries[parent]? = none ↔ parent ∈ removed) := by
    rintro parent ⟨entry, held⟩
    rw [entries_without, held]
    simp
  constructor
  · intro orphanless parent child held member unconfirmed step
    by_contra stays
    exact orphanless parent child held ((gone parent held).mpr member) unconfirmed
      ((spends parent child).mpr ⟨step, stays⟩)
  · intro closed parent child held absent unconfirmed step
    obtain ⟨step, stays⟩ := (spends parent child).mp step
    exact stays (closed parent child held ((gone parent held).mp absent) unconfirmed step)

theorem mem_staleTxids {nowSecs : Nat} {txid : Hash} :
    txid ∈ pool.staleTxids nowSecs ↔ pool.Stale nowSecs txid := by
  simp only [staleTxids, List.mem_map, List.mem_filter, decide_eq_true_eq, Prod.exists,
    ExtTreeMap.mem_toList_iff_getElem?_eq_some, Stale]
  constructor
  · rintro ⟨_, entry, ⟨held, old⟩, rfl⟩
    exact ⟨entry, held, old⟩
  · rintro ⟨entry, held, old⟩
    exact ⟨txid, entry, ⟨held, old⟩, rfl⟩

theorem Indexed.evictStale_noOrphans_iff (indexed : pool.Indexed crypto) {nowSecs : Nat} :
    NoOrphans pool (pool.evictStale nowSecs).1 (fun _ => False) ↔
      ∀ parent child, pool.Stale nowSecs parent → pool.Spends parent child →
        pool.Stale nowSecs child := by
  have removed : (pool.evictStale nowSecs).1 = pool.without {txid | pool.Stale nowSecs txid} := by
    have same : {txid | txid ∈ pool.staleTxids nowSecs} = {txid | pool.Stale nowSecs txid} := by
      ext txid
      exact mem_staleTxids
    rw [evictStale, indexed.removeEntries, same]
  rw [removed, noOrphans_without_iff]
  constructor
  · intro closed parent child old step
    have member := old
    obtain ⟨entry, held, -⟩ := member
    exact closed parent child ⟨entry, held⟩ old id step
  · exact fun closed parent child _ old _ step => closed parent child old step

theorem Indexed.handleConfirmedBlock (indexed : pool.Indexed crypto)
    (confirmedTxids : List Hash) (spentOutpoints : List OutPoint) :
    pool.handleConfirmedBlock confirmedTxids spentOutpoints =
      pool.without {txid | txid ∈ confirmedTxids ∨ pool.UsesAny spentOutpoints txid} := by
  have removed := indexed.removeEntries confirmedTxids
  have left := indexed.without {txid | txid ∈ confirmedTxids}
  rw [Mempool.handleConfirmedBlock]
  split
  · next none =>
      rw [removed, List.isEmpty_iff.mp none]
      congr 1
      ext txid
      simp [UsesAny]
  · rw [removed, left.removeEntries, without_without]
    congr 1
    ext txid
    simp only [Set.mem_union, Set.mem_ofPred_eq, mem_ownersOf left, uses_without,
      List.contains_iff_mem, UsesAny]
    constructor
    · rintro (confirmed | ⟨outPoint, ⟨-, used⟩, spent⟩)
      · exact .inl confirmed
      · exact .inr ⟨outPoint, spent, used⟩
    · rintro (confirmed | ⟨outPoint, spent, used⟩)
      · exact .inl confirmed
      · by_cases confirmed : txid ∈ confirmedTxids
        · exact .inl confirmed
        · exact .inr ⟨outPoint, ⟨confirmed, used⟩, spent⟩

theorem Indexed.confirm_noOrphans_iff (indexed : pool.Indexed crypto)
    {confirmedTxids : List Hash} {spentOutpoints : List OutPoint} :
    NoOrphans pool (pool.handleConfirmedBlock confirmedTxids spentOutpoints)
        (· ∈ confirmedTxids) ↔
      ∀ parent child, parent ∉ confirmedTxids → pool.UsesAny spentOutpoints parent →
        pool.Spends parent child →
          child ∈ confirmedTxids ∨ pool.UsesAny spentOutpoints child := by
  rw [indexed.handleConfirmedBlock, noOrphans_without_iff]
  constructor
  · intro closed parent child unconfirmed used step
    have member := used
    obtain ⟨outPoint, -, entry, held, -⟩ := member
    exact closed parent child ⟨entry, held⟩ (.inr used) unconfirmed step
  · rintro closed parent child - (confirmed | used) unconfirmed step
    · exact absurd confirmed unconfirmed
    · exact closed parent child unconfirmed used step

end Removals

section Add

variable {tx : Transaction} {feeSats : UInt64} {now : Nat} {victims : List Hash}
  {roomy : Mempool}

theorem Roomy.gone_iff_displaced (made : Roomy crypto pool tx feeSats victims roomy)
    (indexed : pool.Indexed crypto) {parent : Hash} {entry : MempoolEntry}
    (held : pool.entries[parent]? = some entry) :
    roomy.entries[parent]? = none ↔ pool.Displaces tx parent := by
  have replaced := (indexed.trims_replace tx).indexed indexed
  have cleared := made.cleared
  rw [indexed.replace] at cleared replaced
  rcases replaced.makeRoom_eq_ok (Nat.lt_succ_self _) cleared with
    ⟨settled, -, rfl⟩ | ⟨full, last, lowest, room⟩
  · rw [beside, entries_without, held]
    simp [Displaces, settled]
  · have left : roomy.entries = ((pool.beside tx).without
        ((pool.beside tx).shed (evictionRank last lowest))).entries := by
      rw [room.left]
      rfl
    rw [left, entries_without, beside, entries_without, ← beside, held]
    constructor
    · intro gone
      by_cases conflicts : parent ∈ lineage pool.Spends (pool.Conflicting tx)
      · exact .inl conflicts
      · refine .inr ⟨full, last, lowest, room.marginal, ?_⟩
        by_contra stays
        simp [conflicts, stays] at gone
    · rintro (conflicts | ⟨-, other, otherEntry, marginal, shed⟩)
      · simp [conflicts]
      · obtain rfl := marginal.unique room.marginal
        have same : otherEntry = lowest := by
          have otherHeld := marginal.held
          rw [room.marginal.held] at otherHeld
          exact (Option.some.inj otherHeld).symm
        subst same
        simp [shed]

theorem entries_finish (txid : Hash) :
    (finish crypto tx feeSats now roomy).entries[txid]? =
      if tx.txid crypto = txid then some (newEntry tx feeSats now) else roomy.entries[txid]? := by
  have same : roomy.decayFeeRate.entries = roomy.entries := by
    unfold decayFeeRate
    split <;> rfl
  rw [finish, insertEntry, ExtTreeMap.getElem?_insert, same]
  simp only [Std.LawfulEqOrd.compare_eq_iff_eq]

theorem Roomy.noOrphans_iff (made : Roomy crypto pool tx feeSats victims roomy)
    (indexed : pool.Indexed crypto) :
    NoOrphans pool (finish crypto tx feeSats now roomy) (fun _ => False) ↔
      ∀ parent, Names tx parent → (∃ entry, pool.entries[parent]? = some entry) →
        ¬ pool.Displaces tx parent := by
  have trims := (indexed.trims_replace tx).trans (made.trims_replaced indexed)
  have different : ∀ parent, (∃ entry, pool.entries[parent]? = some entry) →
      tx.txid crypto ≠ parent := by
    rintro parent ⟨entry, held⟩ rfl
    rw [made.passes.new] at held
    cases held
  constructor
  · rintro orphanless parent ⟨input, member, rfl⟩ ⟨entry, held⟩ displaced
    refine orphanless input.prevTxid (tx.txid crypto) ⟨entry, held⟩ ?_ id ?_
    · rw [entries_finish, if_neg (different _ ⟨entry, held⟩)]
      exact (made.gone_iff_displaced indexed held).mpr displaced
    · exact ⟨input.outPoint, ⟨_, by rw [entries_finish, if_pos rfl], input, member, rfl⟩, rfl⟩
  · rintro kept parent child ⟨entry, held⟩ gone -
      ⟨outPoint, ⟨spender, spenderHeld, input, member, rfl⟩, rfl⟩
    rw [entries_finish, if_neg (different _ ⟨entry, held⟩)] at gone
    rw [entries_finish] at spenderHeld
    split at spenderHeld
    · cases spenderHeld
      exact kept input.prevTxid ⟨input, member, rfl⟩ ⟨entry, held⟩
        ((made.gone_iff_displaced indexed held).mp gone)
    · exact trims.no_orphans held gone
        ⟨input.outPoint, ⟨spender, spenderHeld, input, member, rfl⟩, rfl⟩

theorem Indexed.add_noOrphans_iff (indexed : pool.Indexed network.crypto) :
    NoOrphans pool (Retained.final (addTransactionWithFee network.crypto tx feeSats now) pool)
        (fun _ => False) ↔
      (Operation.add tx feeSats now).KeepsParents network pool := by
  rw [final_addTransactionWithFee]
  cases ran : addReportingVictims network.crypto tx feeSats now pool with
  | error error after =>
      have failed : addTransactionWithFee network.crypto tx feeSats now pool =
          .error error after := by
        rw [addTransactionWithFee, Retained.run_bind, ran]
      have trims := indexed.addReportingVictims_eq_error ran
      rw [Retained.final_of_error ran]
      constructor
      · rintro - ⟨after, succeeded⟩
        rw [failed] at succeeded
        cases succeeded
      · rintro - parent child ⟨entry, held⟩ gone -
        exact trims.no_orphans held gone
  | ok victims after =>
      have succeeded : addTransactionWithFee network.crypto tx feeSats now pool =
          .ok () after := by
        rw [addTransactionWithFee, Retained.run_bind, ran]
        rfl
      rw [Retained.final_of_ok ran]
      rcases addReportingVictims_eq_ok ran with ⟨⟨known, knownHeld⟩, -, rfl⟩ | ⟨roomy, made, rfl⟩
      · constructor
        · intro _ _ new
          rw [knownHeld] at new
          cases new
        · rintro - parent child ⟨entry, held⟩ gone
          rw [held] at gone
          cases gone
      · rw [made.noOrphans_iff indexed]
        exact ⟨fun kept _ _ => kept, fun kept => kept ⟨_, succeeded⟩ made.passes.new⟩

end Add

section Reorg

variable {chain : Chain}

theorem inputs_of_inputTotal {inputs : List TxInput} {start total : UInt64}
    (summed : chain.inputTotal inputs start = some total) :
    ∀ input ∈ inputs, input.outPoint ∈ chain.utxoSet := by
  induction inputs generalizing start with
  | nil => simp
  | cons first inputs ih =>
      obtain ⟨utxo, held, rest⟩ := Option.bind_eq_some_iff.mp summed
      intro input member
      rcases List.mem_cons.mp member with rfl | later
      · exact ExtTreeMap.isSome_getElem?_iff_mem.mp (by rw [held]; rfl)
      · exact ih rest input later

theorem inputs_nil_of_claim {tx : Transaction} (valid : validateTransaction tx = .ok ())
    (claim : tx.isLegacyClaim = true) : tx.inputs = [] := by
  have type : tx.txType = .legacyClaim := by simpa [Transaction.isLegacyClaim] using claim
  simp only [validateTransaction, type, Checked.bind_eq_ok, Checked.rejectIf_eq_ok,
    Bool.not_eq_false'] at valid
  obtain ⟨⟨⟩, -, ⟨⟩, -, ⟨⟩, -, ⟨⟩, -, none⟩ := valid
  exact List.isEmpty_iff.mp none

/-- An entry that pays the fee it was admitted with spends unspent outputs of the chain. -/
theorem Admissible.backed {entry : MempoolEntry} (admissible : Admissible entry)
    (fee : chain.computeTxFee entry.tx = some entry.feeSats) :
    ∀ input ∈ entry.tx.inputs, input.outPoint ∈ chain.utxoSet := by
  by_cases claim : entry.tx.isLegacyClaim = true
  · rw [inputs_nil_of_claim admissible.valid claim]
    simp
  · have paid := admissible.paid (by simpa using claim)
    unfold Chain.computeTxFee at fee
    split at fee
    · rw [← Option.some.inj fee] at paid
      exact absurd paid (by decide)
    · obtain ⟨total, summed, -⟩ := Option.bind_eq_some_iff.mp fee
      exact inputs_of_inputTotal summed

/-- Every input of every entry is an unspent output of the chain. -/
def Backed (chain : Chain) (pool : Mempool) : Prop :=
  ∀ txid outPoint, pool.Uses txid outPoint → outPoint ∈ chain.utxoSet

theorem fee_of_checkAgainstChain {tx : Transaction} {fee : UInt64}
    (checked : checkAgainstChain network chain tx = .ok fee) :
    chain.computeTxFee tx = some fee := by
  simp only [checkAgainstChain, Checked.bind_eq_ok, Checked.required_eq_ok] at checked
  obtain ⟨paid, computed, ⟨⟩, -, rest⟩ := checked
  split at rest
  · cases rest
    exact computed
  · obtain ⟨⟨⟩, -, same⟩ := Checked.bind_eq_ok.mp rest
    cases same
    exact computed

theorem Backed.trims (backed : Backed chain pool) (trims : pool.Trims after) :
    Backed chain after :=
  fun txid outPoint used => backed txid outPoint (trims.uses used)

theorem Backed.admission {tx : Transaction} {now : Nat} (backed : Backed chain pool)
    (indexed : pool.Indexed network.crypto) :
    Backed chain (Retained.final (admitWithChainFee network chain now tx) pool) := by
  rcases @admit_final_cases pool tx now network chain with final | ⟨fee, checked, final⟩
  · rw [final]
    exact backed
  · rw [final]
    rcases @Indexed.add_final_cases network.crypto pool tx fee now indexed with
      trims | ⟨victims, roomy, made, inserted⟩
    · exact backed.trims trims
    · rw [inserted]
      rintro txid _ ⟨entry, held, input, member, rfl⟩
      rw [entries_finish] at held
      split at held
      · cases held
        exact (admissible_of_policy made.passes.policy).backed
          (fee_of_checkAgainstChain checked) input member
      · have trims := (indexed.trims_replace tx).trans (made.trims_replaced indexed)
        exact backed txid input.outPoint ⟨entry, trims.held held, input, member, rfl⟩

/-- After a reorganisation every entry spends unspent outputs of the new chain. -/
theorem Indexed.backed_handleReorg (indexed : pool.Indexed network.crypto) (now : Nat)
    (rolledBackTxs : List Transaction) :
    Backed chain (handleReorg network chain now rolledBackTxs pool) := by
  rw [handleReorg, indexed.removeEntries]
  set invalid := (pool.entries.toList.filter fun held => isInvalidOn network chain held.2).map
    Prod.fst with listed
  have cleaned := indexed.without {txid | txid ∈ invalid}
  have backed : Backed chain (pool.without {txid | txid ∈ invalid}) := by
    rintro txid _ ⟨entry, held, input, member, rfl⟩
    obtain ⟨stays, held⟩ := entries_without_eq_some.mp held
    refine (indexed.admissible txid entry held).backed ?_ input member
    by_contra different
    refine stays (List.mem_map.mpr ⟨(txid, entry), List.mem_filter.mpr ⟨?_, ?_⟩, rfl⟩)
    · exact ExtTreeMap.mem_toList_iff_getElem?_eq_some.mpr held
    · simp [isInvalidOn, different]
  generalize pool.without {txid | txid ∈ invalid} = left at cleaned backed
  clear_value invalid
  clear listed
  induction rolledBackTxs generalizing left with
  | nil => exact backed
  | cons tx rolledBackTxs ih => exact ih _ (cleaned.admission chain) (backed.admission cleaned)

theorem Indexed.reorg_noOrphans (indexed : pool.Indexed network.crypto) (now : Nat)
    (rolledBackTxs : List Transaction) :
    NoOrphans pool (handleReorg network chain now rolledBackTxs pool)
      fun txid => ∃ vout, (⟨txid, vout⟩ : OutPoint) ∈ chain.utxoSet := by
  rintro parent child - - unconfirmed ⟨outPoint, used, rfl⟩
  exact unconfirmed ⟨outPoint.vout,
    indexed.backed_handleReorg now rolledBackTxs child outPoint used⟩

end Reorg

/-- An operation leaves no entry behind whose parent it removed unconfirmed exactly under
the condition stated for it. -/
theorem no_orphans_iff (indexed : pool.Indexed network.crypto) (operation : Operation) :
    NoOrphans pool (operation.apply network pool) operation.Confirms ↔
      operation.KeepsParents network pool := by
  cases operation with
  | add tx feeSats now => exact indexed.add_noOrphans_iff
  | remove txid =>
      refine iff_of_true ?_ trivial
      have removed : (Operation.remove txid).apply network pool = pool.without {txid} :=
        indexed.removeEntry txid
      rw [removed, noOrphans_without_iff]
      exact fun parent child _ member unconfirmed => absurd member unconfirmed
  | confirm confirmedTxids spentOutpoints => exact indexed.confirm_noOrphans_iff
  | reorg chain now rolledBackTxs =>
      exact iff_of_true (indexed.reorg_noOrphans now rolledBackTxs) trivial
  | evictStale nowSecs => exact indexed.evictStale_noOrphans_iff

end Mempool

namespace Regtest

def family : Mempool :=
  (Mempool.withByteLimit 10 1000).applyAll network
    [.add parentPayment 1000 0, .add childPayment 2000 86400]

def usurper : Transaction :=
  { payment 3 zeroHash [0x51] with
    inputs := [⟨zeroHash, 0, [], 0⟩, ⟨parentPayment.txid crypto, 0, [], 0⟩] }

def orphan (pool : Mempool) (parent child : Hash) : Bool :=
  decide (pool.entries[parent]? = none) &&
    match pool.entries[child]? with
    | some entry => entry.tx.inputs.any fun input => decide (input.prevTxid = parent)
    | none => false

theorem spends_of_orphan {pool : Mempool} {parent child : Hash}
    (found : orphan pool parent child = true) :
    pool.entries[parent]? = none ∧ pool.Spends parent child := by
  simp only [orphan, Bool.and_eq_true, decide_eq_true_eq] at found
  obtain ⟨gone, spends⟩ := found
  refine ⟨gone, ?_⟩
  split at spends
  · next entry held =>
      obtain ⟨input, member, same⟩ := List.any_eq_true.mp spends
      exact ⟨input.outPoint, ⟨entry, held, input, member, rfl⟩, of_decide_eq_true same⟩
  · cases spends

def orphaning : List (Mempool.Operation × Transaction) :=
  [(.evictStale 172801, childPayment), (.confirm [] [⟨zeroHash, 0⟩], childPayment),
    (.add usurper 10000 0, usurper)]

theorem family_orphaned :
    family.entries[parentPayment.txid network.crypto]?.isSome = true ∧
      (orphaning.all fun orphaned => orphan (orphaned.1.apply network family)
        (parentPayment.txid network.crypto) (orphaned.2.txid network.crypto)) = true := by
  decide +kernel

end Regtest

/-- Once both are stale, the parent goes together with its child. -/
theorem Mempool.no_orphans_of_family :
    (Operation.evictStale 300000).apply Regtest.network Regtest.family ≠ Regtest.family ∧
      NoOrphans Regtest.family
        ((Operation.evictStale 300000).apply Regtest.network Regtest.family)
        (Operation.evictStale 300000).Confirms := by
  have listed : Regtest.family.entries.toList.length = 2 ∧
      (∀ held ∈ Regtest.family.entries.toList, staleTxTtlSecs < 300000 - held.2.receivedAt) ∧
      ((Operation.evictStale 300000).apply Regtest.network
        Regtest.family).entries.toList.length = 0 := by
    decide +kernel
  refine ⟨fun same => ?_, ?_⟩
  · have sizes := listed.2.2
    rw [same, listed.1] at sizes
    cases sizes
  · refine (no_orphans_iff (sound_applyAll Regtest.network _ (by decide)).indexed _).mpr ?_
    rintro parent child - ⟨_, ⟨entry, held, -⟩, -⟩
    exact ⟨entry, held, listed.2.1 (child, entry)
      (ExtTreeMap.mem_toList_iff_getElem?_eq_some.mpr held)⟩

theorem Regtest.not_noOrphans {orphaned : Mempool.Operation × Transaction}
    (member : orphaned ∈ Regtest.orphaning) :
    ¬ Mempool.NoOrphans Regtest.family (orphaned.1.apply Regtest.network Regtest.family)
      orphaned.1.Confirms := by
  obtain ⟨parent, all⟩ := Regtest.family_orphaned
  rw [List.all_eq_true] at all
  intro orphanless
  obtain ⟨gone, spends⟩ := Regtest.spends_of_orphan (all orphaned member)
  refine orphanless _ _ (Option.isSome_iff_exists.mp parent) gone ?_ spends
  simp only [Regtest.orphaning, List.mem_cons, List.not_mem_nil, or_false] at member
  rcases member with rfl | rfl | rfl <;> simp [Mempool.Operation.Confirms]

/-- The parent goes when it is stale, when a block spends its funds, and when its child
replaces it; the child stays each time. -/
theorem children_outlive_parents :
    (¬ Mempool.NoOrphans Regtest.family
        ((Mempool.Operation.evictStale 172801).apply Regtest.network Regtest.family)
        (Mempool.Operation.evictStale 172801).Confirms) ∧
      (¬ Mempool.NoOrphans Regtest.family
        ((Mempool.Operation.confirm [] [⟨zeroHash, 0⟩]).apply Regtest.network Regtest.family)
        (Mempool.Operation.confirm [] [⟨zeroHash, 0⟩]).Confirms) ∧
      ¬ Mempool.NoOrphans Regtest.family
        ((Mempool.Operation.add Regtest.usurper 10000 0).apply Regtest.network Regtest.family)
        (Mempool.Operation.add Regtest.usurper 10000 0).Confirms :=
  ⟨@Regtest.not_noOrphans (.evictStale 172801, Regtest.childPayment) (by simp [Regtest.orphaning]),
    @Regtest.not_noOrphans (.confirm [] [⟨zeroHash, 0⟩], Regtest.childPayment)
      (by simp [Regtest.orphaning]),
    @Regtest.not_noOrphans (.add Regtest.usurper 10000 0, Regtest.usurper)
      (by simp [Regtest.orphaning])⟩

end Vtorrent
