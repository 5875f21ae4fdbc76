import Vtorrent.TorrentSessions

/-!
# The totals of the incentive accounts of a session

Dropping stale accounts never drops bytes that are not settled.  It does drop accounts that were
settled, and with them what they had earned and paid, so the totals of a session may fall.
-/

namespace Vtorrent

open Std FiniteMap

/-- The amounts that a settlement adds up: earned and paid. -/
def PeerBandwidthAccount.earned (account : PeerBandwidthAccount) : Nat :=
  account.totalEarnedSatoshis.toNat

def PeerBandwidthAccount.paid (account : PeerBandwidthAccount) : Nat :=
  account.totalPaidSatoshis.toNat

theorem foldl_addAccount_totals (accounts : List PeerBandwidthAccount)
    (summary : IncentiveSummary) :
    (accounts.foldl IncentiveSummary.addAccount summary).totalEarnedSatoshis =
        (accounts.map PeerBandwidthAccount.totalEarnedSatoshis).foldl saturatingAdd
          summary.totalEarnedSatoshis ∧
      (accounts.foldl IncentiveSummary.addAccount summary).totalPaidSatoshis =
        (accounts.map PeerBandwidthAccount.totalPaidSatoshis).foldl saturatingAdd
          summary.totalPaidSatoshis := by
  induction accounts generalizing summary with
  | nil => exact ⟨rfl, rfl⟩
  | cons account accounts ih => exact ih (summary.addAccount account)

namespace TorrentSession

theorem toNat_totals (session : TorrentSession) :
    session.incentiveSummary.totalEarnedSatoshis.toNat =
        min (total PeerBandwidthAccount.earned session.incentiveAccounts) (2 ^ 64 - 1) ∧
      session.incentiveSummary.totalPaidSatoshis.toNat =
        min (total PeerBandwidthAccount.paid session.incentiveAccounts) (2 ^ 64 - 1) := by
  obtain ⟨earned, paid⟩ :=
    foldl_addAccount_totals (values session.incentiveAccounts) .empty
  unfold incentiveSummary aggregateSummary
  rw [earned, paid]
  constructor
  · exact (toNat_saturatingSum _).trans (by rw [List.map_map]; rfl)
  · exact (toNat_saturatingSum _).trans (by rw [List.map_map]; rfl)

theorem incentiveAccounts_evict (session : TorrentSession) :
    session.evictStaleAccounts.incentiveAccounts =
      if session.incentiveAccounts.size ≤ maxIncentiveAccounts then session.incentiveAccounts
      else session.incentiveAccounts.filter fun _ account => unsettled account := by
  unfold evictStaleAccounts
  split
  · rfl
  · dsimp only
    split
    · rfl
    · set active := session.incentiveAccounts.filter fun _ account => unsettled account with
        kept
      have nobody : (active.toList.insertionSort fun first second =>
          first.2.lastActive ≤ second.2.lastActive).filter
            (fun entry => disposable entry.2) = [] := by
        rw [List.filter_eq_nil_iff]
        rintro ⟨address, account⟩ member
        rw [List.mem_insertionSort, ExtTreeMap.mem_toList_iff_getElem?_eq_some, kept,
          getElem?_filter] at member
        have busy : unsettled account = true := by
          rw [Option.filter_eq_some_iff] at member
          exact member.2
        simp only [unsettled, disposable, Bool.or_eq_true, decide_eq_true_eq,
          Bool.and_eq_true, beq_iff_eq] at busy ⊢
        rintro ⟨⟨up, down⟩, -⟩
        rw [up, down] at busy
        simp at busy
      rw [nobody, List.take_nil, List.map_nil, List.foldl_nil]

theorem getElem?_evict_of_unsettled {session : TorrentSession} {peerAddress : String}
    {account : PeerBandwidthAccount}
    (held : session.incentiveAccounts[peerAddress]? = some account)
    (busy : unsettled account = true) :
    session.evictStaleAccounts.incentiveAccounts[peerAddress]? = some account := by
  rw [incentiveAccounts_evict]
  split
  · exact held
  · rw [getElem?_filter, held, Option.filter_some, if_pos busy]

/-- When accounts are about to be dropped, those without unsettled bytes have earned and paid
nothing. -/
def KeepsSettled (session : TorrentSession) : Prop :=
  maxIncentiveAccounts < session.incentiveAccounts.size →
    ∀ (peerAddress : String) (account : PeerBandwidthAccount),
      session.incentiveAccounts[peerAddress]? = some account → unsettled account = false →
        account.earned = 0 ∧ account.paid = 0

structure Settled (weight : PeerBandwidthAccount → Nat) : Prop where
  fresh : ∀ peerAddress, weight (.new peerAddress) = 0
  upload : ∀ account bytes now, weight ((account.recordUpload bytes).touch now) = weight account
  download : ∀ account bytes now,
    weight ((account.recordDownload bytes).touch now) = weight account
  settle : ∀ account now, weight account ≤ weight (account.settle now).2

theorem settled_earned : Settled PeerBandwidthAccount.earned where
  fresh _ := rfl
  upload _ _ _ := rfl
  download _ _ _ := rfl
  settle account now := by
    simp only [PeerBandwidthAccount.earned, PeerBandwidthAccount.settle, toNat_saturatingAdd]
    have := account.totalEarnedSatoshis.toNat_lt
    omega

theorem settled_paid : Settled PeerBandwidthAccount.paid where
  fresh _ := rfl
  upload _ _ _ := rfl
  download _ _ _ := rfl
  settle account now := by
    simp only [PeerBandwidthAccount.paid, PeerBandwidthAccount.settle, toNat_saturatingAdd]
    have := account.totalPaidSatoshis.toNat_lt
    omega

section Weights

variable {weight : PeerBandwidthAccount → Nat} {session : TorrentSession}

theorem total_withAccount (fresh : ∀ peerAddress, weight (.new peerAddress) = 0)
    (peerAddress : String) {change : PeerBandwidthAccount → PeerBandwidthAccount}
    (same : ∀ account, weight (change account) = weight account) :
    total weight (session.withAccount peerAddress change).incentiveAccounts =
      total weight session.incentiveAccounts := by
  unfold withAccount
  dsimp only
  cases held : session.incentiveAccounts[peerAddress]? with
  | none =>
      have absent : peerAddress ∉ session.incentiveAccounts := by
        rw [ExtTreeMap.mem_iff_isSome_getElem?, held]
        exact Bool.false_ne_true
      rw [total_insert weight _ absent, same, Option.getD_none, fresh, Nat.zero_add]
  | some account =>
      have balance := total_replace weight held (change account)
      rw [same] at balance
      exact Nat.add_left_cancel balance

theorem total_evict (keeps : session.KeepsSettled)
    (zero : ∀ account : PeerBandwidthAccount, account.earned = 0 ∧ account.paid = 0 →
      weight account = 0) :
    total weight session.evictStaleAccounts.incentiveAccounts =
      total weight session.incentiveAccounts := by
  rw [incentiveAccounts_evict]
  split
  · rfl
  · rename_i many
    have split := total_filter weight session.incentiveAccounts fun _ account =>
      unsettled account
    have dropped : total weight (session.incentiveAccounts.filter
        fun _ account => !unsettled account) = 0 := by
      rw [total, List.sum_eq_zero_iff]
      intro amount member
      obtain ⟨account, listed, rfl⟩ := List.mem_map.mp member
      obtain ⟨peerAddress, held⟩ := mem_values.mp listed
      rw [getElem?_filter, Option.filter_eq_some_iff] at held
      exact zero account (keeps (Nat.not_le.mp many) peerAddress account held.1
        (by simpa using held.2))
    rw [← split, dropped, Nat.add_zero]

end Weights

/-- What happens to the accounts of a session. -/
inductive Event
  | upload (peerAddress : String) (bytes now : UInt64)
  | download (peerAddress : String) (bytes now : UInt64)
  | settle (peerAddress : String) (now : UInt64)

def perform (session : TorrentSession) : Event → TorrentSession
  | .upload peerAddress bytes now => session.recordUpload peerAddress bytes now
  | .download peerAddress bytes now => session.recordDownload peerAddress bytes now
  | .settle peerAddress now => session.settleAccount peerAddress now

def performAll (session : TorrentSession) (events : List Event) : TorrentSession :=
  events.foldl perform session

/-- Every recording of a run finds only accounts that it may drop without loss. -/
def AllKeepSettled : TorrentSession → List Event → Prop
  | _, [] => True
  | session, event :: events =>
      (match event with
        | .settle _ _ => True
        | _ => session.KeepsSettled) ∧ AllKeepSettled (session.perform event) events

theorem total_le_perform {weight : PeerBandwidthAccount → Nat} (settled : Settled weight)
    (zero : ∀ account : PeerBandwidthAccount, account.earned = 0 ∧ account.paid = 0 →
      weight account = 0) {session : TorrentSession} {event : Event} {events : List Event}
    (keeps : session.AllKeepSettled (event :: events)) :
    total weight session.incentiveAccounts ≤
      total weight (session.perform event).incentiveAccounts := by
  cases event with
  | upload peerAddress bytes now =>
      have evicted := @total_evict weight
        { session with bytesUploaded := saturatingAdd session.bytesUploaded bytes } keeps.1 zero
      exact (evicted.symm.trans (total_withAccount settled.fresh peerAddress
        fun account => settled.upload account bytes now).symm).le
  | download peerAddress bytes now =>
      have evicted := @total_evict weight
        { session with bytesDownloaded := saturatingAdd session.bytesDownloaded bytes }
        keeps.1 zero
      exact (evicted.symm.trans (total_withAccount settled.fresh peerAddress
        fun account => settled.download account bytes now).symm).le
  | settle peerAddress now =>
      unfold perform settleAccount
      dsimp only
      split
      · exact le_rfl
      · rename_i account held
        have balance := total_replace weight held (account.settle now).2
        have more := settled.settle account now
        dsimp only
        omega

theorem total_le_performAll {weight : PeerBandwidthAccount → Nat} (settled : Settled weight)
    (zero : ∀ account : PeerBandwidthAccount, account.earned = 0 ∧ account.paid = 0 →
      weight account = 0) {session : TorrentSession} {events : List Event}
    (keeps : session.AllKeepSettled events) :
    total weight session.incentiveAccounts ≤
      total weight (session.performAll events).incentiveAccounts := by
  induction events generalizing session with
  | nil => exact le_rfl
  | cons event events ih => exact (total_le_perform settled zero keeps).trans (ih keeps.2)

theorem performAll_append (session : TorrentSession) (early late : List Event) :
    session.performAll (early ++ late) = (session.performAll early).performAll late :=
  List.foldl_append

theorem allKeepSettled_append {session : TorrentSession} {early late : List Event} :
    session.AllKeepSettled (early ++ late) ↔
      session.AllKeepSettled early ∧ (session.performAll early).AllKeepSettled late := by
  induction early generalizing session with
  | nil => exact ⟨fun keeps => ⟨trivial, keeps⟩, And.right⟩
  | cons event early ih =>
      constructor
      · intro keeps
        obtain ⟨rest, later⟩ := ih.mp keeps.2
        exact ⟨⟨keeps.1, rest⟩, later⟩
      · intro keeps
        exact ⟨keeps.1.1, ih.mpr ⟨keeps.1.2, keeps.2⟩⟩

/-- Eviction never drops an account with bytes that are not settled.  Over a run in which it
never meets a settled account with a total, the totals of the summary never fall. -/
theorem totals_never_fall (session : TorrentSession) :
    (∀ (peerAddress : String) (account : PeerBandwidthAccount),
      session.incentiveAccounts[peerAddress]? = some account → unsettled account = true →
        session.evictStaleAccounts.incentiveAccounts[peerAddress]? = some account) ∧
    ∀ early late : List Event,
      session.AllKeepSettled (early ++ late) →
        (session.performAll early).incentiveSummary.totalEarnedSatoshis ≤
            (session.performAll (early ++ late)).incentiveSummary.totalEarnedSatoshis ∧
          (session.performAll early).incentiveSummary.totalPaidSatoshis ≤
            (session.performAll (early ++ late)).incentiveSummary.totalPaidSatoshis := by
  refine ⟨fun _ _ held busy => getElem?_evict_of_unsettled held busy, ?_⟩
  intro early late keeps
  have later := (allKeepSettled_append.mp keeps).2
  rw [performAll_append]
  obtain ⟨earned, paid⟩ := toNat_totals (session.performAll early)
  obtain ⟨earned', paid'⟩ := toNat_totals ((session.performAll early).performAll late)
  have moreEarned := total_le_performAll settled_earned (fun _ none => none.1) later
  have morePaid := total_le_performAll settled_paid (fun _ none => none.2) later
  rw [UInt64.le_iff_toNat_le, UInt64.le_iff_toNat_le]
  omega

namespace Sample

def peerName (number : Nat) : String := String.ofList (List.replicate number 'a')

theorem peerName_injective : Function.Injective peerName := by
  intro first second same
  have lengths := congrArg List.length (String.ofList_injective same)
  simpa using lengths

def uploads (count : Nat) : List Event :=
  (List.range count).map fun number => .upload (peerName number) 1073741824 0

def settlements (count : Nat) : List Event :=
  (List.range count).map fun number => .settle (peerName number) 0

def busy (peerAddress : String) : PeerBandwidthAccount :=
  ((PeerBandwidthAccount.new peerAddress).recordUpload 1073741824).touch 0

def accountOf (settled number : Nat) : PeerBandwidthAccount :=
  if number < settled then ((busy (peerName number)).settle 0).2 else busy (peerName number)

/-- The accounts of the first peers, of which the first ones are settled. -/
structure Holds (session : TorrentSession) (settled count : Nat) : Prop where
  size : session.incentiveAccounts.size = count
  held : ∀ {peerAddress account}, session.incentiveAccounts[peerAddress]? = some account ↔
    ∃ number < count, peerName number = peerAddress ∧ accountOf settled number = account

theorem Holds.insert {session next : TorrentSession} {settled settled' count count' number : Nat}
    (before : Holds session settled count) (sized : next.incentiveAccounts.size = count')
    (accounts : next.incentiveAccounts = session.incentiveAccounts.insert (peerName number)
      (accountOf settled' number))
    (covers : ∀ other, other < count' ↔ other < count ∨ other = number)
    (same : ∀ other, other ≠ number → accountOf settled' other = accountOf settled other) :
    Holds next settled' count' := by
  refine ⟨sized, fun {peerAddress account} => ?_⟩
  rw [accounts]
  rcases eq_or_ne peerAddress (peerName number) with rfl | different
  · rw [ExtTreeMap.getElem?_insert_self, Option.some.injEq]
    constructor
    · intro found
      exact ⟨number, (covers number).mpr (.inr rfl), rfl, found⟩
    · rintro ⟨other, -, named, found⟩
      rwa [peerName_injective named] at found
  · rw [getElem?_insert_of_ne different, before.held]
    refine exists_congr fun other => ?_
    rcases eq_or_ne other number with rfl | apart
    · exact iff_of_false (fun found => different found.2.1.symm)
        fun found => different found.2.1.symm
    · rw [covers, same other apart, or_iff_left apart]

theorem holds_uploads (count : Nat) (few : count ≤ maxIncentiveAccounts + 1) :
    Holds ((new "session" 0).performAll (uploads count)) 0 count := by
  induction count with
  | zero => exact ⟨rfl, by simp [uploads, performAll, new]⟩
  | succ count ih =>
      have before := ih (by omega)
      rw [uploads, List.range_succ, List.map_append, performAll_append, ← uploads,
        List.map_singleton]
      generalize (new "session" 0).performAll (uploads count) = session at before
      have free : session.incentiveAccounts[peerName count]? = none := by
        refine Option.eq_none_iff_forall_ne_some.mpr fun account found => ?_
        obtain ⟨number, below, named, -⟩ := before.held.mp found
        exact below.ne (peerName_injective named)
      have accounts : (session.performAll
          [.upload (peerName count) 1073741824 0]).incentiveAccounts =
          session.incentiveAccounts.insert (peerName count) (accountOf 0 count) := by
        have few' : session.incentiveAccounts.size ≤ maxIncentiveAccounts := by
          rw [before.size]
          omega
        simp only [performAll, List.foldl_cons, List.foldl_nil, perform, recordUpload,
          withAccount, evictStaleAccounts, if_pos few', free, Option.getD_none, busy,
          accountOf, Nat.not_lt_zero, if_false]
      refine before.insert ?_ accounts (by omega) fun _ _ => rfl
      simp [accounts, ExtTreeMap.size_insert, ExtTreeMap.mem_iff_isSome_getElem?, free,
        before.size]

theorem allKeepSettled_uploads (count : Nat) (few : count ≤ maxIncentiveAccounts + 1) :
    (new "session" 0).AllKeepSettled (uploads count) := by
  induction count with
  | zero => trivial
  | succ count ih =>
      rw [uploads, List.range_succ, List.map_append, ← uploads, allKeepSettled_append]
      refine ⟨ih (by omega), fun many => ?_, trivial⟩
      rw [(holds_uploads count (by omega)).size] at many
      omega

theorem unsettled_busy (peerAddress : String) : unsettled (busy peerAddress) = true := by
  have counted : 0 < saturatingAdd 0 1073741824 := by decide
  simp [unsettled, busy, PeerBandwidthAccount.recordUpload, PeerBandwidthAccount.touch,
    PeerBandwidthAccount.new, counted]

theorem allKeepSettled_more {count : Nat} (few : count ≤ maxIncentiveAccounts + 1) :
    (new "session" 0).AllKeepSettled
      (uploads count ++ [.upload "b" 1 0, .settle (peerName 0) 0]) := by
  refine allKeepSettled_append.mpr ⟨allKeepSettled_uploads count few, ?_, trivial, trivial⟩
  intro _ peerAddress account held settled
  obtain ⟨number, -, -, rfl⟩ := (holds_uploads count few).held.mp held
  rw [accountOf, if_neg (Nat.not_lt_zero _), unsettled_busy] at settled
  cases settled

theorem holds_settlements {session : TorrentSession} {count : Nat} (settled : Nat)
    (start : Holds session 0 count) (few : settled ≤ count) :
    Holds (session.performAll (settlements settled)) settled count := by
  induction settled with
  | zero => exact start
  | succ settled ih =>
      have before := ih (by omega)
      rw [settlements, List.range_succ, List.map_append, performAll_append, ← settlements,
        List.map_singleton]
      generalize session.performAll (settlements settled) = session at before
      have held : session.incentiveAccounts[peerName settled]? =
          some (accountOf settled settled) := before.held.mpr ⟨settled, few, rfl, rfl⟩
      have accounts : (session.performAll [.settle (peerName settled) 0]).incentiveAccounts =
          session.incentiveAccounts.insert (peerName settled)
            (accountOf (settled + 1) settled) := by
        simp only [performAll, List.foldl_cons, List.foldl_nil, perform, settleAccount, held,
          accountOf, Nat.lt_irrefl, Nat.lt_succ_self, if_true, if_false]
      refine before.insert ?_ accounts (by omega) fun other apart => ?_
      · simp [accounts, ExtTreeMap.size_insert, ExtTreeMap.mem_iff_isSome_getElem?, held,
          before.size]
      · exact if_congr (by omega) rfl rfl

theorem totals_dropped {count : Nat} (few : count ≤ maxIncentiveAccounts + 1)
    (many : maxIncentiveAccounts < count) :
    let before := (new "session" 0).performAll (uploads count ++ settlements count)
    (before.perform (.upload "b" 1 0)).incentiveSummary.totalEarnedSatoshis <
      before.incentiveSummary.totalEarnedSatoshis := by
  have holds : Holds ((new "session" 0).performAll (uploads count ++ settlements count))
      count count := by
    rw [performAll_append]
    exact holds_settlements count (holds_uploads count few) le_rfl
  dsimp only
  generalize (new "session" 0).performAll (uploads count ++ settlements count) = before at holds
  have earned : 100000000 ≤ total PeerBandwidthAccount.earned before.incentiveAccounts :=
    (show 100000000 ≤ ((busy (peerName 0)).settle 0).2.earned by decide).trans
      (weight_le_total _ (holds.held.mpr ⟨0, by omega, rfl, if_pos (by omega)⟩))
  have nothing : total PeerBandwidthAccount.earned
      (before.perform (.upload "b" 1 0)).incentiveAccounts = 0 := by
    refine (total_withAccount settled_earned.fresh "b" fun account =>
      settled_earned.upload account 1 0).trans ?_
    rw [incentiveAccounts_evict, if_neg (by rw [holds.size]; omega), total,
      List.sum_eq_zero_iff]
    intro amount member
    obtain ⟨account, listed, rfl⟩ := List.mem_map.mp member
    obtain ⟨peerAddress, held⟩ := mem_values.mp listed
    rw [getElem?_filter, Option.filter_eq_some_iff] at held
    obtain ⟨number, below, -, rfl⟩ := holds.held.mp held.1
    rw [accountOf, if_pos below] at held
    exact absurd held.2 (by simp [unsettled, PeerBandwidthAccount.settle])
  rw [UInt64.lt_iff_toNat_lt, (toNat_totals before).1, (toNat_totals _).1, nothing]
  omega

end Sample

open Sample in
/-- With 10001 peers that are not settled, one more upload meets the limit and drops nothing. -/
theorem totals_of_unsettled_peers :
    ((new "session" 0).performAll (uploads 10001)).incentiveAccounts.size = 10001 ∧
      ((new "session" 0).performAll (uploads 10001)).incentiveSummary.totalEarnedSatoshis ≤
        ((new "session" 0).performAll (uploads 10001 ++
          [.upload "b" 1 0, .settle (peerName 0) 0])).incentiveSummary.totalEarnedSatoshis :=
  ⟨(holds_uploads 10001 (by decide)).size,
    ((totals_never_fall _).2 _ _ (allKeepSettled_more (by decide))).1⟩

open Sample in
/-- With 10001 settled peers, one more upload drops all that was earned from them. -/
theorem settled_totals_dropped :
    let before := (new "session" 0).performAll (uploads 10001 ++ settlements 10001)
    (before.perform (.upload "b" 1 0)).incentiveSummary.totalEarnedSatoshis <
      before.incentiveSummary.totalEarnedSatoshis :=
  totals_dropped (by decide) (by decide)

end TorrentSession

end Vtorrent
