import Vtorrent.MempoolRuns

/-!
# The fee floor after evictions

Each eviction puts the floor one above the rate of its victim, whatever the floor was, and
the call may lower it once more before it ends.  The floor therefore ends above all victims
and not below where it was exactly under a condition on the last entry that has to go.
-/

namespace Vtorrent

open Lineages
open Std (ExtTreeMap)

namespace Mempool

variable {crypto : Crypto} {pool : Mempool} {tx : Transaction} {feeSats : UInt64} {now : Nat}
  {victims : List Hash} {after : Mempool}

/-- The last entry that has to go to make room for the transaction pays a rate of at least
the floor less one, and, unless it pays nothing, half of the slots stay in use. -/
def FloorSafe (pool : Mempool) (tx : Transaction) : Prop :=
  ∃ last entry, (pool.beside tx).Marginal tx.serializedSize last entry ∧
    pool.minFeeRate ≤ entry.feeRate + 1 ∧
    (entry.feeRate = 0 ∨ pool.maxSize / 2 ≤
      ((pool.beside tx).without
        ((pool.beside tx).shed (evictionRank last entry))).entries.size)

/-- A call that evicted something ends with the floor above the last victim, lowered by
one if the pool has drained. -/
theorem Indexed.floor_after_eviction (indexed : pool.Indexed crypto)
    (ran : addReportingVictims crypto tx feeSats now pool = .ok victims after)
    (evicted : victims ≠ []) :
    ∃ last entry roomy,
      RoomMade (pool.beside tx) tx.serializedSize (feeRateOf feeSats tx.serializedSize) victims
        roomy last entry ∧
      after.minFeeRate =
        if roomy.entries.size < pool.maxSize / 2 ∧ 0 < entry.feeRate then entry.feeRate
        else entry.feeRate + 1 := by
  rcases addReportingVictims_eq_ok ran with ⟨-, none, -⟩ | ⟨roomy, made, rfl⟩
  · exact absurd none evicted
  · have replaced := (indexed.trims_replace tx).indexed indexed
    rcases replaced.makeRoom_eq_ok (Nat.lt_succ_self _) made.cleared with
      ⟨-, none, -⟩ | ⟨-, last, entry, room⟩
    · exact absurd none evicted
    · rw [indexed.replace] at room
      refine ⟨last, entry, roomy, room, ?_⟩
      have floor : roomy.minFeeRate = entry.feeRate + 1 := by rw [room.left]; rfl
      have size : roomy.maxSize = pool.maxSize := by rw [room.left]; rfl
      change roomy.decayFeeRate.minFeeRate = _
      rw [decayFeeRate, floor, size]
      by_cases drained : roomy.entries.size < pool.maxSize / 2 ∧ 0 < entry.feeRate
      · rw [if_pos drained, if_pos ⟨drained.1, by omega⟩]
        rfl
      · rw [if_neg drained, if_neg (by omega), floor]

/-- The floor ends no lower than it was and above the rate of every victim exactly when
the pool was safe in that respect. -/
theorem floor_above_victims_iff (indexed : pool.Indexed crypto)
    (ran : addReportingVictims crypto tx feeSats now pool = .ok victims after)
    (evicted : victims ≠ []) :
    (pool.minFeeRate ≤ after.minFeeRate ∧
        ∀ victim ∈ victims, ∀ entry, pool.entries[victim]? = some entry →
          entry.feeRate < after.minFeeRate) ↔
      FloorSafe pool tx := by
  obtain ⟨last, entry, roomy, room, floor⟩ := indexed.floor_after_eviction ran evicted
  have lastHeld : pool.entries[last]? = some entry :=
    (entries_without_eq_some.mp room.marginal.held).2
  have remaining : ((pool.beside tx).without
      ((pool.beside tx).shed (evictionRank last entry))).entries.size = roomy.entries.size := by
    rw [room.left]
    rfl
  have cheapest : ∀ victim ∈ victims, ∀ lower, pool.entries[victim]? = some lower →
      lower.feeRate ≤ entry.feeRate := by
    intro victim member lower held
    obtain ⟨found, foundHeld, within⟩ := room.listed victim member
    rw [(entries_without_eq_some.mp foundHeld).2] at held
    cases held
    exact feeRate_le_of_evictionRank_le within
  have member : last ∈ victims := List.mem_of_getLast? room.ends
  constructor
  · rintro ⟨kept, above⟩
    have lastBelow := above last member entry lastHeld
    refine ⟨last, entry, room.marginal, ?_, ?_⟩
    · rw [floor] at kept
      split at kept <;> omega
    · rw [floor] at lastBelow
      rw [remaining]
      split at lastBelow <;> omega
  · rintro ⟨other, otherEntry, marginal, kept, half⟩
    obtain rfl := marginal.unique room.marginal
    have same : otherEntry = entry := by
      have held := (entries_without_eq_some.mp marginal.held).2
      rw [lastHeld] at held
      exact (Option.some.inj held).symm
    subst same
    rw [remaining] at half
    have stays : after.minFeeRate = otherEntry.feeRate + 1 := by
      rw [floor, if_neg]
      omega
    refine ⟨stays ▸ kept, fun victim listed lower held => ?_⟩
    rw [stays]
    exact Nat.lt_succ_of_le (cheapest victim listed lower held)

end Mempool

namespace Regtest

def claim (version : UInt32) : Transaction where
  version := version
  txType := .legacyClaim
  inputs := []
  outputs := [⟨500, [0x51]⟩]
  lockTime := 0
  claimAddress := some "V1"
  claimSignature := some []

def taken : Mempool :=
  (Mempool.withByteLimit 1 1000).applyAll network [.add (fundedPayment 1) 1000 0]

/-- A pool of two slots whose floor was raised by an eviction, with a payment and a claim
that pays nothing. -/
def congested : Mempool :=
  (Mempool.withByteLimit 2 1000).applyAll network
    [.add (fundedPayment 1) 1000 0, .add (fundedPayment 2) 3000 0,
      .add (fundedPayment 3) 4000 0, .remove ((fundedPayment 2).txid crypto),
      .add (claim 4) 0 0]

def floorAfter : EStateM.Result NodeError Mempool (List Hash) → Option (List Hash × Nat)
  | .ok victims after => some (victims, after.minFeeRate)
  | .error _ _ => none

theorem of_floorAfter {result : EStateM.Result NodeError Mempool (List Hash)}
    {victims : List Hash} {floor : Nat} (reported : floorAfter result = some (victims, floor)) :
    ∃ after, result = .ok victims after ∧ after.minFeeRate = floor := by
  cases result with
  | ok listed after =>
      cases reported
      exact ⟨after, rfl, rfl⟩
  | error error after => cases reported

theorem floors :
    floorAfter (Mempool.addReportingVictims network.crypto (fundedPayment 5) 5000 0 taken) =
        some ([(fundedPayment 1).txid crypto], 11) ∧
      congested.minFeeRate = 11 ∧
      floorAfter (Mempool.addReportingVictims network.crypto (fundedPayment 5) 5000 0
        congested) = some ([(claim 4).txid crypto], 1) := by
  decide +kernel

end Regtest

/-- A payment takes the only slot from a cheaper one. -/
theorem Mempool.floor_above_only_victim :
    ∃ victims after,
      addReportingVictims Regtest.network.crypto (Regtest.fundedPayment 5) 5000 0
          Regtest.taken = .ok victims after ∧ victims ≠ [] ∧
        ((Regtest.taken.minFeeRate ≤ after.minFeeRate ∧
            ∀ victim ∈ victims, ∀ entry, Regtest.taken.entries[victim]? = some entry →
              entry.feeRate < after.minFeeRate) ↔
          FloorSafe Regtest.taken (Regtest.fundedPayment 5)) := by
  obtain ⟨after, ran, -⟩ := Regtest.of_floorAfter Regtest.floors.1
  exact ⟨_, after, ran, List.cons_ne_nil _ _, floor_above_victims_iff
    (sound_applyAll Regtest.network _ le_rfl).indexed ran (List.cons_ne_nil _ _)⟩

/-- Evicting a claim, which pays nothing, takes the floor from eleven down to one. -/
theorem floor_lowered_by_eviction :
    ∃ victims after,
      Mempool.addReportingVictims Regtest.network.crypto (Regtest.fundedPayment 5) 5000 0
          Regtest.congested = .ok victims after ∧
        victims ≠ [] ∧ after.minFeeRate < Regtest.congested.minFeeRate := by
  obtain ⟨-, before, reported⟩ := Regtest.floors
  obtain ⟨after, ran, lowered⟩ := Regtest.of_floorAfter reported
  refine ⟨_, after, ran, List.cons_ne_nil _ _, ?_⟩
  rw [before, lowered]
  decide

end Vtorrent
