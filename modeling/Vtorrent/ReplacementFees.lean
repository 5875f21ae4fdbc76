import Vtorrent.MempoolRuns

/-!
# The fees of replacements

A replacement is compared with each conflicting entry by itself.  It pays at least the fee
of each one, but what it removes with them, other conflicts and all descendants, is not
added up.
-/

namespace Vtorrent

open Lineages
open Std (ExtTreeMap)

namespace Mempool

variable {crypto : Crypto} {pool : Mempool} {tx : Transaction} {feeSats : UInt64} {now : Nat}
  {after : Mempool}

open Classical in
noncomputable def feesOf (pool : Mempool) (txids : Set Hash) : Nat :=
  FiniteMap.total (fun entry => entry.feeSats.toNat)
    (pool.entries.filter fun txid _ => decide (txid ∈ txids))

theorem totalFees_without (removed : Set Hash) :
    (pool.without removed).totalFees + pool.feesOf removed = pool.totalFees := by
  classical
  have split := FiniteMap.total_filter (fun entry : MempoolEntry => entry.feeSats.toNat)
    pool.entries fun txid _ => decide (txid ∉ removed)
  simp only [decide_not, Bool.not_not] at split
  simpa [totalFees, without, feesOf] using split

theorem feesOf_le {removed : Set Hash} {bound : Nat}
    (single : ∃ only, ∀ txid ∈ removed, ∀ entry, pool.entries[txid]? = some entry → txid = only)
    (bounded : ∀ txid ∈ removed, ∀ entry, pool.entries[txid]? = some entry →
      entry.feeSats.toNat ≤ bound) : pool.feesOf removed ≤ bound := by
  classical
  obtain ⟨only, unique⟩ := single
  have held : ∀ (txid : Hash) (entry : MempoolEntry),
      (pool.entries.filter fun txid _ => decide (txid ∈ removed))[txid]? = some entry →
        txid ∈ removed ∧ pool.entries[txid]? = some entry := by
    intro txid entry found
    rw [FiniteMap.getElem?_filter, Option.filter_eq_some_iff] at found
    exact ⟨of_decide_eq_true found.2, found.1⟩
  unfold feesOf
  cases found : (pool.entries.filter fun txid _ => decide (txid ∈ removed))[only]? with
  | none =>
      have empty : (pool.entries.filter fun txid _ => decide (txid ∈ removed)) = ∅ := by
        apply ExtTreeMap.ext_getElem?
        intro txid
        apply Option.ext
        intro entry
        simp only [ExtTreeMap.getElem?_empty, reduceCtorEq, iff_false]
        intro other
        obtain ⟨gone, here⟩ := held txid entry other
        rw [unique txid gone entry here, found] at other
        cases other
      rw [empty, FiniteMap.total_empty]
      exact Nat.zero_le _
  | some entry =>
      obtain ⟨gone, here⟩ := held only entry found
      rw [← FiniteMap.total_erase _ found]
      have rest : (pool.entries.filter fun txid _ => decide (txid ∈ removed)).erase only = ∅ := by
        apply ExtTreeMap.ext_getElem?
        intro txid
        apply Option.ext
        intro other
        rw [ExtTreeMap.getElem?_erase]
        by_cases same : only = txid
        · simp [same]
        · simp only [Std.LawfulEqOrd.compare_eq_iff_eq, same, if_false,
            ExtTreeMap.getElem?_empty, reduceCtorEq, iff_false]
          intro otherFound
          obtain ⟨otherGone, otherHere⟩ := held txid other otherFound
          exact same (unique txid otherGone other otherHere).symm
      rw [rest, FiniteMap.total_empty]
      exact bounded only gone entry here

theorem feeRate_lt (indexed : pool.Indexed crypto) {txid : Hash} {entry : MempoolEntry}
    (held : pool.entries[txid]? = some entry) : entry.feeRate + 1 < 2 ^ 64 - 1 := by
  have sized := (indexed.admissible txid entry held).sized
  have long : 4 ≤ entry.sizeBytes := by
    rw [sized, Transaction.serializedSize, Transaction.encode, List.length_append]
    simp [encodeU32]
  have small := entry.feeSats.toNat_lt
  have divided : entry.feeSats.toNat / entry.sizeBytes ≤ entry.feeSats.toNat / 4 :=
    Nat.div_le_div_left long (by decide)
  have rate : entry.feeRate = entry.feeSats.toNat / entry.sizeBytes :=
    if_pos (by omega)
  omega

theorem outbids_of_replacement (indexed : pool.Indexed crypto)
    (checked : pool.checkReplacement tx feeSats = .ok ()) {txid : Hash}
    (conflicts : txid ∈ pool.Conflicting tx) {entry : MempoolEntry}
    (held : pool.entries[txid]? = some entry) :
    entry.feeSats ≤ feeSats ∧
      entry.feeRate + minRbfFeeBump ≤ feeRateOf feeSats tx.serializedSize := by
  have listed := (mem_findConflicts indexed).mpr conflicts
  unfold checkReplacement at checked
  rw [if_neg (by simpa using List.ne_nil_of_mem listed)] at checked
  simp only [Checked.bind_eq_ok, checkConflicts, Checked.forM_eq_ok] at checked
  obtain ⟨⟨⟩, -, each⟩ := checked
  have passed := each txid listed
  simp only [held, Checked.bind_eq_ok, Checked.required_eq_ok, Option.some.injEq, checkConflict,
    Checked.rejectIf_eq_ok, decide_eq_false_iff_not] at passed
  obtain ⟨_, rfl, ⟨⟩, rate, fee⟩ := passed
  have small := feeRate_lt indexed held
  refine ⟨UInt64.not_lt.mp fee, ?_⟩
  unfold minRbfFeeBump at rate ⊢
  omega

theorem totalFees_of_admission (indexed : pool.Indexed crypto)
    (ran : addReportingVictims crypto tx feeSats now pool = .ok [] after)
    (new : pool.entries[tx.txid crypto]? = none) :
    pool.checkReplacement tx feeSats = .ok () ∧
      after.totalFees = feeSats.toNat + (pool.beside tx).totalFees := by
  rcases addReportingVictims_eq_ok ran with ⟨⟨entry, known⟩, -, -⟩ | ⟨roomy, made, rfl⟩
  · rw [new] at known
    cases known
  · refine ⟨made.passes.replacement, ?_⟩
    have replaced := (indexed.trims_replace tx).indexed indexed
    rcases replaced.makeRoom_eq_ok (Nat.lt_succ_self _) made.cleared with
      ⟨-, -, rfl⟩ | ⟨-, last, entry, room⟩
    · have sameEntries : (pool.replace tx).decayFeeRate.entries = (pool.replace tx).entries := by
        unfold decayFeeRate
        split <;> rfl
      have absent : tx.txid crypto ∉ (pool.replace tx).decayFeeRate.entries := by
        intro member
        obtain ⟨entry, held⟩ := Option.isSome_iff_exists.mp
          (ExtTreeMap.isSome_getElem?_iff_mem.mpr member)
        rw [(made.trims indexed).held held] at new
        cases new
      rw [totalFees, finish, insertEntry, FiniteMap.total_insert _ _ absent, sameEntries,
        indexed.replace]
      rfl
    · cases room.ends

/-- A replacement pays at least the fee of each conflicting entry, and more per byte.  The
fees in the pool change by its fee less the fees of all it removes, so they do not shrink
when it removes one entry. -/
theorem replacement_outbids_each_conflict (indexed : pool.Indexed crypto)
    (ran : addReportingVictims crypto tx feeSats now pool = .ok [] after)
    (new : pool.entries[tx.txid crypto]? = none) :
    (∀ txid ∈ pool.Conflicting tx, ∀ entry, pool.entries[txid]? = some entry →
        entry.feeSats ≤ feeSats ∧
          entry.feeRate + minRbfFeeBump ≤ feeRateOf feeSats tx.serializedSize) ∧
      after.totalFees + pool.feesOf (lineage pool.Spends (pool.Conflicting tx)) =
        pool.totalFees + feeSats.toNat ∧
      ((∃ only, ∀ txid ∈ lineage pool.Spends (pool.Conflicting tx), ∀ entry,
          pool.entries[txid]? = some entry → txid = only) →
        pool.totalFees ≤ after.totalFees) := by
  obtain ⟨checked, total⟩ := totalFees_of_admission indexed ran new
  have split := @totalFees_without pool (lineage pool.Spends (pool.Conflicting tx))
  have outbids := fun txid conflicts entry held =>
    @outbids_of_replacement _ _ _ _ indexed checked txid conflicts entry held
  have balance : after.totalFees + pool.feesOf (lineage pool.Spends (pool.Conflicting tx)) =
      pool.totalFees + feeSats.toNat := by
    rw [total, ← split, beside]
    omega
  refine ⟨outbids, balance, fun single => ?_⟩
  have paid : pool.feesOf (lineage pool.Spends (pool.Conflicting tx)) ≤ feeSats.toNat := by
    refine feesOf_le single fun txid member entry held => ?_
    obtain ⟨only, unique⟩ := single
    have conflicts : txid ∈ pool.Conflicting tx := by
      rcases member with conflicts | ⟨root, conflicts, path⟩
      · exact conflicts
      · have rooted := conflicts
        obtain ⟨input, -, used⟩ := rooted
        obtain ⟨rootEntry, rootHeld⟩ := used.mem
        rw [unique txid (.inr ⟨root, conflicts, path⟩) entry held,
          ← unique root (.inl conflicts) rootEntry rootHeld]
        exact conflicts
    exact UInt64.le_iff_toNat_le.mp (outbids txid conflicts entry held).1
  omega

end Mempool

namespace Regtest

def jointPayment : Transaction :=
  { payment 3 zeroHash [0x51] with
    inputs := [⟨digest 32 [1], 0, [], 0⟩, ⟨digest 32 [2], 0, [], 0⟩] }

def rival : Mempool :=
  (Mempool.withByteLimit 10 1000).applyAll network [.add (fundedPayment 1) 1000 0]

def bothRivals : Mempool :=
  (Mempool.withByteLimit 10 1000).applyAll network
    [.add (fundedPayment 1) 10000 0, .add (fundedPayment 2) 10000 0]

def feesAfter : EStateM.Result NodeError Mempool (List Hash) → Option Nat
  | .ok [] after => some after.totalFees
  | _ => none

theorem of_feesAfter {result : EStateM.Result NodeError Mempool (List Hash)} {fees : Nat}
    (reported : feesAfter result = some fees) :
    ∃ after, result = .ok [] after ∧ after.totalFees = fees := by
  unfold feesAfter at reported
  split at reported
  · cases reported
    exact ⟨_, rfl, rfl⟩
  · cases reported

theorem jointPayment_replaces :
    feesAfter (Mempool.addReportingVictims network.crypto jointPayment 2000 0 rival) =
        some 2000 ∧
      rival.entries[jointPayment.txid network.crypto]? = none ∧
      bothRivals.totalFees = 20000 ∧
      feesAfter (Mempool.addReportingVictims network.crypto jointPayment 15300 0 bothRivals) =
        some 15300 := by
  decide +kernel

end Regtest

/-- A payment replaces one other. -/
theorem Mempool.replacement_outbids_rival :
    ∃ after,
      addReportingVictims Regtest.network.crypto Regtest.jointPayment 2000 0 Regtest.rival =
          .ok [] after ∧
        after.totalFees + Regtest.rival.feesOf
            (lineage Regtest.rival.Spends (Regtest.rival.Conflicting Regtest.jointPayment)) =
          Regtest.rival.totalFees + 2000 := by
  obtain ⟨replaces, new, -⟩ := Regtest.jointPayment_replaces
  obtain ⟨after, ran, -⟩ := Regtest.of_feesAfter replaces
  exact ⟨after, ran, (replacement_outbids_each_conflict
    (sound_applyAll Regtest.network _ (by decide)).indexed ran new).2.1⟩

/-- A payment outbids two others one by one and pays less than both together. -/
theorem fees_shrink_on_replacement :
    ∃ after,
      Mempool.addReportingVictims Regtest.network.crypto Regtest.jointPayment 15300 0
          Regtest.bothRivals = .ok [] after ∧
        after.totalFees < Regtest.bothRivals.totalFees := by
  obtain ⟨-, -, before, replaces⟩ := Regtest.jointPayment_replaces
  obtain ⟨after, ran, total⟩ := Regtest.of_feesAfter replaces
  refine ⟨after, ran, ?_⟩
  rw [before, total]
  decide

end Vtorrent
