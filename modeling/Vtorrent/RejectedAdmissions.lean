import Vtorrent.MempoolRuns

/-!
# What a rejected transaction leaves behind

Conflicts are replaced and entries are evicted before the last two reasons to refuse a
transaction, the byte budget and the fee rates of what would have to go.  A refused call
leaves the pool as it was exactly when it was refused before that.
-/

namespace Vtorrent

open Lineages

namespace Mempool

variable {crypto : Crypto} {pool : Mempool} {tx : Transaction} {feeSats : UInt64} {now : Nat}

/-- The transaction fails the checks made first, or it conflicts with no entry and either
exceeds the whole byte budget or pays no higher rate than any entry. -/
def Harmless (crypto : Crypto) (pool : Mempool) (tx : Transaction) (feeSats : UInt64) : Prop :=
  ¬ Passes crypto pool tx feeSats ∨
    (pool.Conflicting tx = ∅ ∧
      (pool.maxBytes < tx.serializedSize ∨
        ∀ (txid : Hash) (entry : MempoolEntry), pool.entries[txid]? = some entry →
          feeRateOf feeSats tx.serializedSize ≤ entry.feeRate))

theorem Indexed.replace_eq_self (indexed : pool.Indexed crypto)
    (none : pool.Conflicting tx = ∅) : pool.replace tx = pool := by
  rw [indexed.replace, beside, none, indexed.without_lineage_empty]

theorem Indexed.size_replace_lt (indexed : pool.Indexed crypto)
    (some : pool.Conflicting tx ≠ ∅) :
    (pool.replace tx).entries.size < pool.entries.size := by
  obtain ⟨txid, conflicts⟩ := Set.nonempty_iff_ne_empty.mpr some
  have member := conflicts
  obtain ⟨input, -, used⟩ := member
  obtain ⟨entry, held⟩ := used.mem
  rw [indexed.replace]
  exact size_without_lt held (subset_lineage conflicts)

theorem ne_of_size_lt {after : Mempool} (fewer : after.entries.size < pool.entries.size) :
    after ≠ pool := by
  rintro rfl
  exact lt_irrefl _ fewer

/-- When the checks made first are passed, only a transaction without conflicts can be
refused without a change. -/
theorem Indexed.unchanged_iff_of_passes (indexed : pool.Indexed crypto)
    (passes : Passes crypto pool tx feeSats) {error : NodeError} {after : Mempool}
    (ran : admitReplaced crypto tx feeSats now (pool.replace tx) = .error error after) :
    after = pool ↔ Harmless crypto pool tx feeSats := by
  have replaced := indexed.trims_replace tx
  by_cases none : pool.Conflicting tx = ∅
  · rw [indexed.replace_eq_self none, admitReplaced_eq] at ran
    split at ran
    · next large =>
        cases ran
        exact ⟨fun _ => .inr ⟨none, .inl large⟩, fun _ => rfl⟩
    · next fits =>
        split at ran
        · cases ran
        · next reason left cleared =>
            cases ran
            rcases indexed.makeRoom_eq_error cleared with
              ⟨same, dearer⟩ | ⟨fewer, txid, entry, held, cheaper⟩
            · exact ⟨fun _ => .inr ⟨none, .inr dearer⟩, fun _ => same⟩
            · refine ⟨fun same => absurd same (ne_of_size_lt fewer), ?_⟩
              rintro (refused | ⟨-, large | dearer⟩)
              · exact absurd passes refused
              · exact absurd large fits
              · exact absurd cheaper (Nat.not_lt.mpr (dearer txid entry held))
  · have fewer := indexed.size_replace_lt none
    have trimmed : (pool.replace tx).Trims after := by
      have left := replaced.indexed indexed
      rw [admitReplaced_eq] at ran
      split at ran
      · cases ran
        exact left.trims_self
      · split at ran
        · cases ran
        · next reason state cleared =>
            cases ran
            rw [← Retained.final_of_error cleared]
            exact left.trims_makeRoom
    refine ⟨fun same => absurd same (ne_of_size_lt (trimmed.size_le.trans_lt fewer)), ?_⟩
    rintro (refused | ⟨nothing, -⟩)
    · exact absurd passes refused
    · exact absurd nothing none

theorem addTransactionWithFee_eq_error {error : NodeError} {after : Mempool}
    (ran : addTransactionWithFee crypto tx feeSats now pool = .error error after) :
    addReportingVictims crypto tx feeSats now pool = .error error after := by
  rw [addTransactionWithFee, Retained.bind_eq_error] at ran
  rcases ran with failed | ⟨victims, middle, -, impossible⟩
  · exact failed
  · cases impossible

theorem Indexed.unchanged_iff_harmless (indexed : pool.Indexed crypto) {error : NodeError}
    {after : Mempool}
    (ran : addTransactionWithFee crypto tx feeSats now pool = .error error after) :
    after = pool ↔ Harmless crypto pool tx feeSats := by
  have called := addTransactionWithFee_eq_error ran
  rcases @addReportingVictims_cases crypto pool tx feeSats now with
    ⟨refused, ⟨reason, failed⟩ | ⟨-, found⟩⟩ | ⟨passes, replaced⟩
  · rw [failed] at called
    cases called
    exact ⟨fun _ => .inl refused, fun _ => rfl⟩
  · rw [found] at called
    cases called
  · rw [replaced] at called
    exact indexed.unchanged_iff_of_passes passes called

/-- A refused transaction leaves the pool as it was exactly when it was refused before
conflicts were replaced and entries were evicted; on the way through the chain's checks
also when those refuse it. -/
theorem unchanged_when_refused_iff {network : Network} (indexed : pool.Indexed network.crypto)
    (error : NodeError) (after : Mempool) :
    (addTransactionWithFee network.crypto tx feeSats now pool = .error error after →
        (after = pool ↔ Harmless network.crypto pool tx feeSats)) ∧
      ∀ chain, admitWithChainFee network chain now tx pool = .error error after →
        (after = pool ↔ ∀ fee, checkAgainstChain network chain tx = .ok fee →
          Harmless network.crypto pool tx fee) := by
  refine ⟨indexed.unchanged_iff_harmless, fun chain ran => ?_⟩
  rw [admitWithChainFee, Retained.run_ofExcept_bind] at ran
  cases checked : checkAgainstChain network chain tx with
  | error reason =>
      rw [checked] at ran
      cases ran
      constructor
      · intro _ fee impossible
        cases impossible
      · intro _
        rfl
  | ok fee =>
      rw [checked] at ran
      rw [Retained.bind_eq_error] at ran
      rcases ran with failed | ⟨value, middle, -, impossible⟩
      · rw [indexed.unchanged_iff_harmless failed]
        constructor
        · rintro harmless other ⟨⟩
          exact harmless
        · exact fun all => all fee rfl
      · cases impossible

end Mempool

namespace Regtest

def onePayment : Mempool :=
  (Mempool.withByteLimit 10 100).applyAll network [.add parentPayment 1000 0]

/-- A replacement that is larger than the byte budget of the pool. -/
def bulkyPayment : Transaction := payment 3 zeroHash (List.replicate 10 0x51)

def leftAfterRefusal : EStateM.Result NodeError Mempool Unit → Option Nat
  | .ok _ _ => none
  | .error _ after => some after.entries.size

theorem of_leftAfterRefusal {result : EStateM.Result NodeError Mempool Unit} {left : Nat}
    (refused : leftAfterRefusal result = some left) :
    ∃ error after, result = .error error after ∧ after.entries.size = left := by
  cases result with
  | ok value after => cases refused
  | error error after =>
      cases refused
      exact ⟨error, after, rfl, rfl⟩

theorem refusals :
    onePayment.entries.size = 1 ∧ onePayment.findConflicts childPayment = [] ∧
      (onePayment.entries.toList.all fun held =>
        decide (feeRateOf 1000 childPayment.serializedSize ≤ held.2.feeRate)) = true ∧
      leftAfterRefusal (Mempool.addTransactionWithFee network.crypto childPayment 1000 0
        onePayment) = some 1 ∧
      leftAfterRefusal (Mempool.addTransactionWithFee network.crypto bulkyPayment 2000 0
        onePayment) = some 0 := by
  decide +kernel

theorem indexed_onePayment : onePayment.Indexed network.crypto :=
  (Mempool.sound_applyAll network [.add parentPayment 1000 0] (by decide)).indexed

end Regtest

/-- A payment that would have to evict the one in the pool and pays no higher rate is refused,
and the one in the pool stays. -/
theorem Mempool.unchanged_when_full :
    ∃ error after,
      addTransactionWithFee Regtest.network.crypto Regtest.childPayment 1000 0
          Regtest.onePayment = .error error after ∧
        after = Regtest.onePayment ∧ after.entries.size = 1 := by
  obtain ⟨one, apart, dearer, refused, -⟩ := Regtest.refusals
  obtain ⟨error, after, ran, left⟩ := Regtest.of_leftAfterRefusal refused
  refine ⟨error, after, ran, ?_, left⟩
  refine ((unchanged_when_refused_iff Regtest.indexed_onePayment error after).1 ran).mpr
    (.inr ⟨?_, .inr fun txid entry held => ?_⟩)
  · rw [Set.eq_empty_iff_forall_notMem]
    intro txid conflicts
    rw [← mem_findConflicts Regtest.indexed_onePayment, apart] at conflicts
    cases conflicts
  · rw [← Std.ExtTreeMap.mem_toList_iff_getElem?_eq_some] at held
    exact of_decide_eq_true (List.all_eq_true.mp dearer _ held)

/-- A replacement is refused for its size after the payment it conflicts with was
removed. -/
theorem payment_lost_to_refused_replacement :
    ∃ error after,
      Mempool.addTransactionWithFee Regtest.network.crypto Regtest.bulkyPayment 2000 0
          Regtest.onePayment = .error error after ∧
        after.entries ≠ Regtest.onePayment.entries := by
  obtain ⟨one, -, -, -, refused⟩ := Regtest.refusals
  obtain ⟨error, after, ran, none⟩ := Regtest.of_leftAfterRefusal refused
  refine ⟨error, after, ran, fun same => ?_⟩
  rw [same, one] at none
  cases none

end Vtorrent
