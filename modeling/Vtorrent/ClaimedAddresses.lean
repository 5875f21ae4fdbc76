import Vtorrent.MainChain

/-!
# Legacy addresses are claimed once

A claim needs an address that is not claimed yet and marks it, so the addresses
claimed along a main chain are all different.
-/

namespace Vtorrent

open Retained MainChain

variable {network : Network} {options : ChainOptions} {context : BlockContext}
  {tx : Transaction} {txs : List Transaction} {state after : Applying}

theorem Effect.claimedAddresses_of_claims (effect : Effect network context tx state after)
    {address : String} (claims : tx.claims = some address) :
    after.claimedAddresses = insert address state.claimedAddresses := by
  ext other
  rw [effect.claimedAddresses, claims, Finset.mem_insert, Option.some.injEq, eq_comm]

theorem Effect.claimedAddresses_of_none (effect : Effect network context tx state after)
    (claims : tx.claims = none) : after.claimedAddresses = state.claimedAddresses := by
  ext other
  simp [effect.claimedAddresses, claims]

def claimsOf (txs : List Transaction) : List String :=
  txs.filterMap Transaction.claims

structure ClaimsOnce (txs : List Transaction) (before after : Finset String) : Prop where
  nodup : (claimsOf txs).Nodup
  unclaimed : ∀ address ∈ claimsOf txs, address ∉ before
  claimed : ∀ address ∈ claimsOf txs, address ∈ after
  kept : before ⊆ after

theorem ClaimsOnce.append {first second : List Transaction}
    {before middle after : Finset String} (earlier : ClaimsOnce first before middle)
    (later : ClaimsOnce second middle after) :
    ClaimsOnce (first ++ second) before after := by
  have split : claimsOf (first ++ second) = claimsOf first ++ claimsOf second :=
    List.filterMap_append
  refine ⟨?_, ?_, ?_, earlier.kept.trans later.kept⟩
  · rw [split, List.nodup_append]
    refine ⟨earlier.nodup, later.nodup, ?_⟩
    rintro address inFirst _ inSecond rfl
    exact later.unclaimed address inSecond (earlier.claimed address inFirst)
  · rw [split, List.forall_mem_append]
    exact ⟨earlier.unclaimed, fun address member held =>
      later.unclaimed address member (earlier.kept held)⟩
  · rw [split, List.forall_mem_append]
    exact ⟨fun address member => later.kept (earlier.claimed address member),
      later.claimed⟩

theorem Effect.claimsOnce
    (effect : Effect network context tx state after) :
    ClaimsOnce [tx] state.claimedAddresses after.claimedAddresses := by
  cases claims : tx.claims with
  | none =>
      have nothing : claimsOf [tx] = [] := by simp [claimsOf, claims]
      rw [effect.claimedAddresses_of_none claims]
      exact ⟨by simp [nothing], by simp [nothing], by simp [nothing],
        Finset.Subset.refl _⟩
  | some address =>
      have one : claimsOf [tx] = [address] := by simp [claimsOf, claims]
      rw [effect.claimedAddresses_of_claims claims]
      exact ⟨by simp [one], by simpa [one] using (effect.claims address claims).1,
        by simp [one], Finset.subset_insert _ _⟩

theorem applyTransactions_claimsOnce {result : Unit}
    (ran : applyTransactions network context txs state = .ok result after) :
    ClaimsOnce txs state.claimedAddresses after.claimedAddresses := by
  induction txs generalizing state with
  | nil =>
      obtain ⟨-, rfl⟩ := pure_eq_ok.mp ran
      exact ⟨List.nodup_nil, by simp [claimsOf], by simp [claimsOf], Finset.Subset.refl _⟩
  | cons tx txs ih =>
      rw [applyTransactions, bind_eq_ok] at ran
      obtain ⟨_, middle, first, rest⟩ := ran
      exact (applyTransaction_eq_ok first).claimsOnce.append (ih rest)

theorem applyBlockJournaled_claimsOnce {before after : Ledger} {journal : BlockJournal}
    (ran : applyBlockJournaled network context txs before = .ok journal after) :
    ClaimsOnce txs before.claimedAddresses after.claimedAddresses := by
  obtain ⟨begun, done, began, finished, -, rfl, -⟩ := applyBlockJournaled_eq_ok ran
  have once := applyTransactions_claimsOnce finished
  rw [beginGovernanceBlock_eq_ok began] at once
  exact once

theorem MainChain.Replays.claimsOnce {main : List Block} {ledger : Ledger}
    {journals : List BlockJournal}
    (replays : Replays network options main ledger journals) :
    ClaimsOnce (transactions main) ∅ ledger.claimedAddresses := by
  induction replays with
  | genesis applied =>
      simpa [transactions, Ledger.empty] using applyBlockJournaled_claimsOnce applied
  | extend earlier next ih =>
      simpa [transactions] using ih.append (applyBlockJournaled_claimsOnce next.applied)

end Vtorrent
