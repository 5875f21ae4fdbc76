import Vtorrent.SwapHandlers

/-!
# Replacing a stalled claim

The maker's claim on the Bitcoin side reveals the preimage, so a claim that stalls has to be
replaced at a higher fee before the taker's refund becomes eligible.  The replacement is
recorded in memory, saved in the recovery journal and broadcast.  The journal never changes a
claim that it holds, so that a saved claim is never replaced.
-/

namespace Vtorrent

open Std

def maxBtcClaimReplacements : Nat := 8

structure BtcClaimBumpRequest where
  orderId : String
  replacesTxid : String
  totalFeeSatoshis : UInt64
  approve : Bool

structure BtcClaimBumpResponse where
  orderId : String
  txid : String
  replacesTxid : String
  totalFeeSatoshis : UInt64
  status : String

/-- What a bump request leads to. -/
inductive BumpPlan where
  | again (retry : BtcClaimReplacement) (parent : Hash)
  | fresh (order : SwapOrder) (swap : SwapState) (raw : Bytes) (txid parent : Hash)
deriving DecidableEq

section Bump

variable (services : SwapServices) (call : SwapCall)

def previousClaimFee (swap : SwapState) : Except RpcError UInt64 := do
  let raw ← required (RpcError.badRequest "No recorded BTC claim to price") swap.btcClaimRaw
  let tx ← (services.bitcoin.deserialize raw).mapError fun _ =>
    RpcError.internal "Recorded BTC claim is corrupted"
  match tx.output with
  | [output] =>
      if output.value ≤ swap.btcAmount.toNat then
        pure (UInt64.ofNat (swap.btcAmount.toNat - output.value))
      else throw (RpcError.badRequest "Invalid BTC claim amount")
  | _ => throw (RpcError.badRequest "Invalid BTC claim shape")

def maxClaimFee (amount : UInt64) : UInt64 :=
  UInt64.ofNat (min (amount.toNat * 2000) (2 ^ 64 - 1) / 10000)

def SwapState.currentClaim (swap : SwapState) : Option Hash :=
  (swap.latestBtcClaim.map BtcClaimReplacement.replacesTxid).or swap.btcClaimTxid

def SwapState.withReplacement (swap : SwapState) (txid : Hash) (fee now : UInt64)
    (raw : Bytes) : SwapState :=
  let replacement : BtcClaimReplacement :=
    { replacesTxid := txid, totalFeeSatoshis := fee, approvedAt := now, raw := raw }
  { swap with
    btcClaimReplacements := swap.btcClaimReplacements ++ [replacement]
    btcClaimRaw := some raw
    btcClaimTxid := some txid }.refreshStatus

def replaceClaim (req : BtcClaimBumpRequest) (wallet : Option Btc.BtcWallet)
    (order : SwapOrder) (swap : SwapState) (parent : Hash) : Except RpcError BumpPlan := do
  let current ← required (RpcError.badRequest "No BTC claim to replace") swap.currentClaim
  rejectIf (current != parent) (RpcError.badRequest "Stale claim txid")
  rejectIf (decide (maxBtcClaimReplacements ≤ swap.btcClaimReplacements.length))
    (RpcError.badRequest "BTC claim replacement limit reached")
  let previousFee ← previousClaimFee services swap
  rejectIf (decide (req.totalFeeSatoshis ≤ previousFee))
    (RpcError.badRequest "Replacement total fee must strictly increase")
  let preimage ← required (RpcError.badRequest "Preimage not available")
    (swap.preimage.or order.preimage)
  let fundingTxid ← required (RpcError.badRequest "BTC funding txid not recorded")
    swap.btcFundingTxid
  let makerBtcAddress ← required (RpcError.badRequest "Maker BTC address not recorded")
    swap.makerBtcAddress
  let refundAddress ← required (RpcError.badRequest "Taker BTC refund address not recorded")
    swap.takerBtcRefundAddress
  rejectIf (decide (maxClaimFee swap.btcAmount < req.totalFeeSatoshis))
    (RpcError.badRequest ("Replacement fee " ++ toString req.totalFeeSatoshis ++
      " exceeds the 20% HTLC fee cap (" ++ toString (maxClaimFee swap.btcAmount) ++ ")"))
  let _ ← required (RpcError.badRequest "BTC wallet not initialized") wallet
  let (raw, txid) ← (Btc.buildBtcHtlcClaimWithFee services.bitcoin services.signer
    services.network.crypto
    { fundingTxid := fundingTxid
      preimage := preimage
      makerBtcAddress := makerBtcAddress
      refundAddress := refundAddress
      expiry := swap.btcExpiry
      amount := swap.btcAmount } req.totalFeeSatoshis).mapError RpcError.badRequest
  pure (.fresh order (swap.withReplacement txid req.totalFeeSatoshis call.now raw) raw txid
    parent)

def bumpPlan (req : BtcClaimBumpRequest) (state : AppState) : Except RpcError BumpPlan := do
  rejectIf (!req.approve)
    (RpcError.badRequest "Explicit approval of the total fee is required")
  rejectIf (!services.durable)
    (RpcError.badRequest "Durable encrypted swap recovery must be enabled")
  call.authorized
  let parent ← parseHash32 req.replacesTxid "replaces_txid"
  let order ← required (RpcError.notFound "Swap order not found")
    (state.orderBook.getOrder req.orderId)
  let swap ← required (RpcError.notFound "Swap state not found") state.swaps[req.orderId]?
  rejectIf (swap.btcClaimTxid.isNone || swap.btcRefundTxid.isSome ||
      swap.vtrRefundTxid.isSome || order.hashLock != some swap.hashLock)
    (RpcError.badRequest "BTC claim is ineligible for replacement")
  rejectIf (windowClosed call.now swap.btcExpiry) (RpcError.badRequest
    "BTC claim window is too close to refund eligibility to replace safely")
  match swap.btcClaimReplacements.find? fun replacement =>
      replacement.replacesTxid == parent &&
        replacement.totalFeeSatoshis == req.totalFeeSatoshis with
  | some retry => do
      rejectIf (swap.latestBtcClaim.map BtcClaimReplacement.replacesTxid !=
          some retry.replacesTxid)
        (RpcError.badRequest "This replacement has already been superseded")
      pure (.again retry parent)
  | none => replaceClaim services call req state.btcWallet order swap parent

def bumpResponse (id : String) (txid parent : Hash) (fee : UInt64) :
    BtcClaimBumpResponse where
  orderId := id
  txid := hexEncode txid.toList
  replacesTxid := hexEncode parent.toList
  totalFeeSatoshis := fee
  status := "BtcClaimReplaced"

def bumpWithBroadcast (req : BtcClaimBumpRequest) : SwapStep BtcClaimBumpResponse := do
  let state ← get
  match ← Retained.ofExcept (bumpPlan services call req state) with
  | .again retry parent =>
      pure (bumpResponse req.orderId retry.replacesTxid parent retry.totalFeeSatoshis)
  | .fresh order swap raw txid parent => do
      commit services call req.orderId order swap (broadcastBtc call raw)
      pure (bumpResponse req.orderId txid parent req.totalFeeSatoshis)

/-! ## What the journal allows -/

def recordOf (directories : SwapRecovery.Directories) (id : String) :
    Option SwapRecovery.Record := do
  let wif ← call.walletWif
  let name ← (services.recoveryNamespace wif).toOption
  let file ← (SwapRecovery.directory directories name)[id]?
  file.toOption

/-- The claim that the journal holds for an order. -/
def recordedClaim (directories : SwapRecovery.Directories) (id : String) : Option Hash :=
  ((recordOf services call directories id).bind SwapRecovery.Record.swap).bind
    SwapState.btcClaimTxid

/-- The journal takes a swap. -/
def Journals (directories : SwapRecovery.Directories) (order : SwapOrder)
    (swap : SwapState) : Prop :=
  ∃ written, journal services call order (some swap) directories = .ok written

end Bump

section Theorems

variable {services : SwapServices} {call : SwapCall}

theorem supersedes_claim_iff {crypto : Crypto} {previous : SwapRecovery.Record}
    {order : SwapOrder} {swap : SwapState} {claim : Hash} :
    SwapRecovery.supersedes crypto previous
        { version := 1, order := order, swap := some { swap with
            btcClaimTxid := some claim } } = .ok () ↔
      SwapRecovery.supersedes crypto previous
        { version := 1, order := order, swap := some { swap with
            btcClaimTxid := previous.swap.bind SwapState.btcClaimTxid } } = .ok () ∧
      (previous.swap.bind SwapState.btcClaimTxid = none ∨
        previous.swap.bind SwapState.btcClaimTxid = some claim) := by
  unfold SwapRecovery.supersedes
  cases previous.swap with
  | none => simp
  | some old =>
      cases recorded : old.btcClaimTxid with
      | none => simp [SwapRecovery.keeps, recorded]
      | some txid =>
          simp [SwapRecovery.keeps, recorded]
          tauto

theorem journal_eq_ok (durable : services.durable = true)
    {directories written : SwapRecovery.Directories} {order : SwapOrder} {swap : SwapState} :
    journal services call order (some swap) directories = .ok written ↔
      RefundLineage.validate services.network.crypto services.decodeBase58 order swap = .ok () ∧
      call.unlocked = true ∧ call.disk = .ok () ∧
      ∃ wif name, call.walletWif = some wif ∧ services.recoveryNamespace wif = .ok name ∧
        SwapRecovery.admits services.network.crypto services.decodeBase58
          (SwapRecovery.directory directories name)[order.key]?
          { version := 1, order := order, swap := some swap } = .ok () ∧
        written = directories.insert name ((SwapRecovery.directory directories name).insert
          order.key (.ok { version := 1, order := order, swap := some swap })) := by
  unfold journal SwapRecovery.write
  simp only [durable, if_true, Checked.bind_eq_ok, Checked.rejectIf_eq_ok,
    Checked.required_eq_ok, Checked.mapError_eq_ok, Checked.pure_eq_ok, Bool.not_eq_false']
  constructor
  · rintro ⟨⟨⟩, valid, ⟨⟩, unlocked, wif, key, name, named, ⟨⟩, admitted, ⟨⟩, disk, rfl⟩
    exact ⟨valid, unlocked, disk, wif, name, key, named, admitted, rfl⟩
  · rintro ⟨valid, unlocked, disk, wif, name, key, named, admitted, rfl⟩
    exact ⟨(), valid, (), unlocked, wif, key, name, named, (), admitted, (), disk, rfl⟩

theorem journals_iff (durable : services.durable = true)
    {directories : SwapRecovery.Directories} {order : SwapOrder} {swap : SwapState} :
    Journals services call directories order swap ↔
      RefundLineage.validate services.network.crypto services.decodeBase58 order swap = .ok () ∧
      call.unlocked = true ∧ call.disk = .ok () ∧
      ∃ wif name, call.walletWif = some wif ∧ services.recoveryNamespace wif = .ok name ∧
        SwapRecovery.admits services.network.crypto services.decodeBase58
          (SwapRecovery.directory directories name)[order.key]?
          { version := 1, order := order, swap := some swap } = .ok () := by
  unfold Journals
  constructor
  · rintro ⟨written, journaled⟩
    obtain ⟨valid, unlocked, disk, wif, name, key, named, admitted, -⟩ :=
      (journal_eq_ok durable).mp journaled
    exact ⟨valid, unlocked, disk, wif, name, key, named, admitted⟩
  · rintro ⟨valid, unlocked, disk, wif, name, key, named, admitted⟩
    exact ⟨_, (journal_eq_ok durable).mpr
      ⟨valid, unlocked, disk, wif, name, key, named, admitted, rfl⟩⟩

theorem recordedClaim_eq {wif name : String} (key : call.walletWif = some wif)
    (named : services.recoveryNamespace wif = .ok name)
    (directories : SwapRecovery.Directories) (id : String) :
    recordedClaim services call directories id =
      ((((SwapRecovery.directory directories name)[id]?).bind Except.toOption).bind
        SwapRecovery.Record.swap).bind SwapState.btcClaimTxid := by
  unfold recordedClaim recordOf
  rw [key]
  change (((services.recoveryNamespace wif).toOption.bind _).bind _).bind _ = _
  rw [named]
  rfl

theorem admits_claim_iff {file : Option SwapRecovery.RecordFile} {order : SwapOrder}
    {swap : SwapState} {claim : Hash} {recorded : Option Hash}
    (same : recorded = ((file.bind Except.toOption).bind SwapRecovery.Record.swap).bind
      SwapState.btcClaimTxid) :
    SwapRecovery.admits services.network.crypto services.decodeBase58 file
        { version := 1, order := order, swap := some { swap with
            btcClaimTxid := some claim } } = .ok () ↔
      SwapRecovery.admits services.network.crypto services.decodeBase58 file
        { version := 1, order := order, swap := some { swap with
            btcClaimTxid := recorded } } = .ok () ∧
        (recorded = none ∨ recorded = some claim) := by
  subst same
  cases file with
  | none => simp [SwapRecovery.admits]
  | some file =>
      cases file with
      | error reason => simp [SwapRecovery.admits, SwapRecovery.readRecord_eq_ok]
      | ok previous =>
          simp only [SwapRecovery.admits, Checked.bind_eq_ok, SwapRecovery.readRecord_eq_ok,
            Except.ok.injEq, Option.bind_some, Except.toOption]
          constructor
          · rintro ⟨read, ⟨rfl, valid⟩, taken⟩
            obtain ⟨kept, allowed⟩ := supersedes_claim_iff.mp taken
            exact ⟨⟨_, ⟨rfl, valid⟩, kept⟩, allowed⟩
          · rintro ⟨⟨read, ⟨rfl, valid⟩, kept⟩, allowed⟩
            exact ⟨_, ⟨rfl, valid⟩, supersedes_claim_iff.mpr ⟨kept, allowed⟩⟩

theorem journals_claim_iff (durable : services.durable = true)
    {directories : SwapRecovery.Directories} {order : SwapOrder} {swap : SwapState}
    {claim : Hash} :
    Journals services call directories order { swap with btcClaimTxid := some claim } ↔
      Journals services call directories order { swap with
        btcClaimTxid := recordedClaim services call directories order.key } ∧
      (recordedClaim services call directories order.key = none ∨
        recordedClaim services call directories order.key = some claim) := by
  rw [journals_iff durable, journals_iff durable]
  constructor
  · rintro ⟨valid, unlocked, disk, wif, name, key, named, admitted⟩
    obtain ⟨taken, allowed⟩ := (admits_claim_iff (recordedClaim_eq key named _ _)).mp admitted
    exact ⟨⟨valid, unlocked, disk, wif, name, key, named, taken⟩, allowed⟩
  · rintro ⟨⟨valid, unlocked, disk, wif, name, key, named, taken⟩, allowed⟩
    exact ⟨valid, unlocked, disk, wif, name, key, named,
      (admits_claim_iff (recordedClaim_eq key named _ _)).mpr ⟨taken, allowed⟩⟩

/-! ### A claim in the journal -/

theorem claim_of_supersedes {crypto : Crypto} {previous record : SwapRecovery.Record}
    {claim : Hash} (taken : SwapRecovery.supersedes crypto previous record = .ok ())
    (recorded : previous.swap.bind SwapState.btcClaimTxid = some claim) :
    record.swap.bind SwapState.btcClaimTxid = some claim := by
  obtain ⟨old, held, claimed⟩ := Option.bind_eq_some_iff.mp recorded
  simp only [SwapRecovery.supersedes, held, Checked.bind_eq_ok, Checked.required_eq_ok,
    Checked.rejectIf_eq_ok, SwapRecovery.keeps, claimed, Bool.not_eq_false', Bool.and_eq_true,
    Option.isNone_some, Bool.false_or, beq_iff_eq] at taken
  obtain ⟨-, -, new, same, -, -, ⟨-, kept⟩, -⟩ := taken
  rw [same, Option.bind_some, ← kept]

theorem recordedClaim_congr {other : SwapCall} (same : call.walletWif = other.walletWif)
    (directories : SwapRecovery.Directories) (id : String) :
    recordedClaim services call directories id = recordedClaim services other directories id := by
  rw [recordedClaim, recordedClaim, recordOf, recordOf, same]

theorem recordedClaim_of_journal (durable : services.durable = true)
    {directories written : SwapRecovery.Directories} {order : SwapOrder} {swap : SwapState}
    (journaled : journal services call order (some swap) directories = .ok written) :
    recordedClaim services call written order.key = swap.btcClaimTxid := by
  obtain ⟨-, -, -, wif, name, key, named, -, rfl⟩ := (journal_eq_ok durable).mp journaled
  simp [recordedClaim_eq key named, SwapRecovery.directory, Except.toOption]

theorem recordedClaim_kept (durable : services.durable = true) {writer : SwapCall}
    {directories written : SwapRecovery.Directories} {order : SwapOrder} {swap : SwapState}
    {id : String} {claim : Hash}
    (journaled : journal services writer order (some swap) directories = .ok written)
    (recorded : recordedClaim services call directories id = some claim) :
    recordedClaim services call written id = some claim := by
  obtain ⟨-, -, -, -, name, -, -, admitted, rfl⟩ := (journal_eq_ok durable).mp journaled
  obtain ⟨wif, place, key, named⟩ : ∃ wif place, call.walletWif = some wif ∧
      services.recoveryNamespace wif = .ok place := by
    unfold recordedClaim recordOf at recorded
    cases key : call.walletWif with
    | none => simp [key] at recorded
    | some wif =>
        cases named : services.recoveryNamespace wif with
        | error reason => simp [key, named, Except.toOption] at recorded
        | ok place => exact ⟨wif, place, rfl, named⟩
  rw [recordedClaim_eq key named] at recorded ⊢
  rcases eq_or_ne name place with rfl | elsewhere
  · rcases eq_or_ne order.key id with rfl | other
    · obtain ⟨old, held, claimed⟩ := Option.bind_eq_some_iff.mp recorded
      obtain ⟨previous, stored, held⟩ := Option.bind_eq_some_iff.mp held
      obtain ⟨file, found, read⟩ := Option.bind_eq_some_iff.mp stored
      obtain rfl : file = .ok previous := by
        cases file with
        | error reason => cases read
        | ok record => rw [Option.some.inj read]
      rw [found, SwapRecovery.admits, Checked.bind_eq_ok] at admitted
      obtain ⟨record, readable, taken⟩ := admitted
      obtain ⟨same, -⟩ := SwapRecovery.readRecord_eq_ok.mp readable
      obtain rfl := Except.ok.inj same
      have kept := claim_of_supersedes taken (by rw [held]; exact claimed)
      simpa [SwapRecovery.directory, Except.toOption] using kept
    · simpa [SwapRecovery.directory, ExtTreeMap.getElem?_insert, other] using recorded
  · simpa [SwapRecovery.directory, ExtTreeMap.getElem?_insert, elsewhere] using recorded

def AppState.broadcasts (state : AppState) : List Bytes :=
  state.events.filterMap fun event =>
    match event with
    | .broadcast raw => some raw
    | _ => none

theorem bumpWithBroadcast_run (req : BtcClaimBumpRequest) (state : AppState) :
    bumpWithBroadcast services call req state =
      match bumpPlan services call req state with
      | .error error => .error error state
      | .ok (.again retry parent) =>
          .ok (bumpResponse req.orderId retry.replacesTxid parent retry.totalFeeSatoshis) state
      | .ok (.fresh order swap raw txid parent) =>
          match commit services call req.orderId order swap (broadcastBtc call raw) state with
          | .ok _ after =>
              .ok (bumpResponse req.orderId txid parent req.totalFeeSatoshis) after
          | .error error after => .error error after := by
  unfold bumpWithBroadcast
  rw [Retained.run_get_bind, Retained.run_ofExcept_bind]
  cases bumpPlan services call req state with
  | error error => rfl
  | ok plan =>
      cases plan with
      | again retry parent => rfl
      | fresh order swap raw txid parent =>
          simp only [Retained.run_bind]
          cases commit services call req.orderId order swap (broadcastBtc call raw) state <;> rfl

/-- A request that may replace the current claim `parent` of an order by `raw`. -/
structure Approved (services : SwapServices) (call : SwapCall) (req : BtcClaimBumpRequest)
    (state : AppState) (order : SwapOrder) (swap : SwapState) (raw : Bytes)
    (txid parent : Hash) : Prop where
  approve : req.approve = true
  durable : services.durable = true
  authorized : call.authorized = .ok ()
  parses : parseHash32 req.replacesTxid "replaces_txid" = .ok parent
  ordered : state.orderBook.getOrder req.orderId = some order
  held : state.swaps[req.orderId]? = some swap
  claimed : swap.btcClaimTxid.isSome
  unrefunded : swap.btcRefundTxid = none ∧ swap.vtrRefundTxid = none
  locked : order.hashLock = some swap.hashLock
  opened : windowClosed call.now swap.btcExpiry = false
  unprepared : ∀ replacement ∈ swap.btcClaimReplacements,
    ¬(replacement.replacesTxid = parent ∧
      replacement.totalFeeSatoshis = req.totalFeeSatoshis)
  current : swap.currentClaim = some parent
  few : swap.btcClaimReplacements.length < maxBtcClaimReplacements
  higher : ∃ fee, previousClaimFee services swap = .ok fee ∧ fee < req.totalFeeSatoshis
  capped : req.totalFeeSatoshis ≤ maxClaimFee swap.btcAmount
  wallet : state.btcWallet.isSome
  built : ∃ preimage fundingTxid makerBtcAddress refundAddress,
    swap.preimage.or order.preimage = some preimage ∧
    swap.btcFundingTxid = some fundingTxid ∧
    swap.makerBtcAddress = some makerBtcAddress ∧
    swap.takerBtcRefundAddress = some refundAddress ∧
    Btc.buildBtcHtlcClaimWithFee services.bitcoin services.signer services.network.crypto
      { fundingTxid := fundingTxid
        preimage := preimage
        makerBtcAddress := makerBtcAddress
        refundAddress := refundAddress
        expiry := swap.btcExpiry
        amount := swap.btcAmount } req.totalFeeSatoshis = .ok (raw, txid)

theorem bumpPlan_fresh_iff {req : BtcClaimBumpRequest} {state : AppState} {order : SwapOrder}
    {replaced : SwapState} {raw : Bytes} {txid parent : Hash} :
    bumpPlan services call req state = .ok (.fresh order replaced raw txid parent) ↔
      ∃ swap, Approved services call req state order swap raw txid parent ∧
        replaced = swap.withReplacement txid req.totalFeeSatoshis call.now raw := by
  simp only [bumpPlan, Checked.bind_eq_ok, Checked.rejectIf_eq_ok, Checked.required_eq_ok,
    Bool.not_eq_false', Bool.or_eq_false_iff, bne_eq_false_iff_eq]
  constructor
  · rintro ⟨⟨⟩, approve, ⟨⟩, durable, ⟨⟩, authorized, claimed, parses, found, ordered, swap,
      held, ⟨⟩, ⟨⟨⟨claims, btc⟩, vtr⟩, locked⟩, ⟨⟩, opened, planned⟩
    cases retry : swap.btcClaimReplacements.find? fun replacement =>
        replacement.replacesTxid == claimed &&
          replacement.totalFeeSatoshis == req.totalFeeSatoshis with
    | some replacement =>
        simp only [retry, Checked.bind_eq_ok, Checked.pure_eq_ok] at planned
        obtain ⟨_, _, same⟩ := planned
        cases same
    | none =>
        simp only [retry, replaceClaim, Checked.bind_eq_ok, Checked.pure_eq_ok,
          Checked.rejectIf_eq_ok, Checked.required_eq_ok, Checked.mapError_eq_ok,
          bne_eq_false_iff_eq, decide_eq_false_iff_not] at planned
        obtain ⟨_, current, ⟨⟩, rfl, ⟨⟩, few, fee, priced, ⟨⟩, higher, preimage, revealed,
          fundingTxid, funded, makerBtcAddress, maker, refundAddress, refund, ⟨⟩, capped,
          wallet, walletHeld, ⟨raw, txid⟩, built, same⟩ := planned
        cases same
        exact ⟨swap, ⟨approve, durable, authorized, parses, ordered, held,
          by simpa [Option.isSome_iff_ne_none] using claims,
          ⟨by simpa using btc, by simpa using vtr⟩, locked, opened,
          by simpa using List.find?_eq_none.mp retry, current, Nat.lt_of_not_le few,
          ⟨fee, priced, UInt64.not_le.mp higher⟩, UInt64.not_lt.mp capped, by simp [walletHeld],
          preimage, fundingTxid, makerBtcAddress, refundAddress, revealed, funded, maker,
          refund, built⟩, rfl⟩
  · rintro ⟨swap, approved, rfl⟩
    obtain ⟨fee, priced, higher⟩ := approved.higher
    obtain ⟨wallet, walletHeld⟩ := Option.isSome_iff_exists.mp approved.wallet
    obtain ⟨preimage, fundingTxid, makerBtcAddress, refundAddress, revealed, funded, maker,
      refund, built⟩ := approved.built
    have unprepared : (swap.btcClaimReplacements.find? fun replacement =>
        replacement.replacesTxid == parent &&
          replacement.totalFeeSatoshis == req.totalFeeSatoshis) = none :=
      List.find?_eq_none.mpr (by simpa using approved.unprepared)
    refine ⟨(), approved.approve, (), approved.durable, (), approved.authorized, parent,
      approved.parses, order, approved.ordered, swap, approved.held, (),
      ⟨⟨⟨by simpa using approved.claimed, by simp [approved.unrefunded.1]⟩,
        by simp [approved.unrefunded.2]⟩, approved.locked⟩, (), approved.opened, ?_⟩
    simp only [unprepared, replaceClaim, Checked.bind_eq_ok, Checked.pure_eq_ok,
      Checked.rejectIf_eq_ok, Checked.required_eq_ok, Checked.mapError_eq_ok,
      bne_eq_false_iff_eq, decide_eq_false_iff_not]
    exact ⟨parent, approved.current, (), rfl, (), Nat.not_le.mpr approved.few, fee, priced,
      (), UInt64.not_le.mpr higher, preimage, revealed, fundingTxid, funded, makerBtcAddress,
      maker, refundAddress, refund, (), UInt64.not_lt.mpr approved.capped, wallet, walletHeld,
      (raw, txid), built, rfl⟩

theorem approved_of_planned {req : BtcClaimBumpRequest} {state : AppState} {order : SwapOrder}
    {swap replaced : SwapState} {raw : Bytes} {txid parent : Hash}
    (planned : bumpPlan services call req state = .ok (.fresh order replaced raw txid parent))
    (held : state.swaps[req.orderId]? = some swap) :
    Approved services call req state order swap raw txid parent := by
  obtain ⟨found, approved, -⟩ := bumpPlan_fresh_iff.mp planned
  obtain rfl : found = swap := Option.some.inj (approved.held.symm.trans held)
  exact approved

theorem journals_withReplacement_iff {directories : SwapRecovery.Directories}
    {order : SwapOrder} {swap : SwapState} {claim : Option Hash} {txid : Hash}
    {fee now : UInt64} {raw : Bytes} (durable : services.durable = true) :
    Journals services call directories order
        { swap.withReplacement txid fee now raw with btcClaimTxid := claim } ↔
      Journals services call directories order { swap with btcClaimTxid := claim } := by
  rw [journals_iff durable, journals_iff durable]
  exact Iff.rfl

theorem journals_replacement_iff {directories : SwapRecovery.Directories}
    {order : SwapOrder} {swap : SwapState} {txid : Hash} {fee now : UInt64} {raw : Bytes}
    (durable : services.durable = true) :
    Journals services call directories order (swap.withReplacement txid fee now raw) ↔
      Journals services call directories order { swap with
        btcClaimTxid := recordedClaim services call directories order.key } ∧
      (recordedClaim services call directories order.key = none ∨
        recordedClaim services call directories order.key = some txid) := by
  have claims : Journals services call directories order
      (swap.withReplacement txid fee now raw) ↔ Journals services call directories order
        { swap.withReplacement txid fee now raw with btcClaimTxid := some txid } := Iff.rfl
  rw [claims, journals_claim_iff durable, journals_withReplacement_iff durable]

theorem broadcasts_withSwaps (state : AppState) (swaps : SwapRecovery.Swaps) :
    ({ state with swaps := swaps } : AppState).broadcasts = state.broadcasts :=
  rfl

theorem events_withSwaps (state : AppState) (swaps : SwapRecovery.Swaps) :
    ({ state with swaps := swaps } : AppState).events = state.events :=
  rfl

theorem withReplacement_ne (swap : SwapState) (txid : Hash) (fee now : UInt64) (raw : Bytes) :
    swap.withReplacement txid fee now raw ≠ swap := by
  intro same
  have lengths := congrArg (fun swap => swap.btcClaimReplacements.length) same
  simp [SwapState.withReplacement, SwapState.refreshStatus] at lengths

theorem bump_of_refused {req : BtcClaimBumpRequest} {state : AppState} {order : SwapOrder}
    {replaced : SwapState} {raw : Bytes} {txid parent : Hash} {error : RpcError}
    (planned : bumpPlan services call req state = .ok (.fresh order replaced raw txid parent))
    (refused : journal services call order (some replaced) state.directories =
      .error error) :
    bumpWithBroadcast services call req state =
      .error error { state with swaps := state.swaps.insert req.orderId replaced } := by
  rw [bumpWithBroadcast_run, planned]
  simp only [commit_run, refused]

theorem final_commit_of_written {id : String} {state : AppState} {order : SwapOrder}
    {swap : SwapState} {raw : Bytes} {written : SwapRecovery.Directories}
    (taken : journal services call order (some swap) state.directories = .ok written) :
    Retained.final (commit services call id order swap (broadcastBtc call raw)) state =
      { state with
        swaps := state.swaps.insert id swap
        directories := written
        events := state.events ++ [.persisted order (some swap), .broadcast raw] } := by
  unfold Retained.final
  rw [commit_run, taken]
  simp only [broadcastBtc]
  cases call.broadcast raw <;> simp

theorem final_bump_of_written {req : BtcClaimBumpRequest} {state : AppState}
    {order : SwapOrder} {replaced : SwapState} {raw : Bytes} {txid parent : Hash}
    {written : SwapRecovery.Directories}
    (planned : bumpPlan services call req state = .ok (.fresh order replaced raw txid parent))
    (taken : journal services call order (some replaced) state.directories = .ok written) :
    Retained.final (bumpWithBroadcast services call req) state =
      { state with
        swaps := state.swaps.insert req.orderId replaced
        directories := written
        events := state.events ++ [.persisted order (some replaced), .broadcast raw] } := by
  rw [← final_commit_of_written taken]
  unfold Retained.final
  rw [bumpWithBroadcast_run, planned]
  dsimp only
  cases commit services call req.orderId order replaced (broadcastBtc call raw) state <;> rfl

theorem recordedClaim_bump {bumper : SwapCall} {req : BtcClaimBumpRequest} {state : AppState}
    {id : String} {claim : Hash}
    (recorded : recordedClaim services call state.directories id = some claim) :
    recordedClaim services call
      (Retained.final (bumpWithBroadcast services bumper req) state).directories id =
        some claim := by
  cases plan : bumpPlan services bumper req state with
  | error reason =>
      rw [Retained.final_of_error (by rw [bumpWithBroadcast_run, plan])]
      exact recorded
  | ok planned =>
      cases planned with
      | again retry parent =>
          rw [Retained.final_of_ok (by rw [bumpWithBroadcast_run, plan])]
          exact recorded
      | fresh order replaced raw txid parent =>
          cases decided : journal services bumper order (some replaced) state.directories with
          | error reason =>
              rw [Retained.final_of_error (bump_of_refused plan decided)]
              exact recorded
          | ok written =>
              obtain ⟨swap, approved, rfl⟩ := bumpPlan_fresh_iff.mp plan
              rw [final_bump_of_written plan decided]
              exact recordedClaim_kept approved.durable decided recorded

/-- The bumps are requested one after the other. -/
def performBumps (services : SwapServices) (state : AppState)
    (bumps : List (SwapCall × BtcClaimBumpRequest)) : AppState :=
  bumps.foldl (fun state bump =>
    Retained.final (bumpWithBroadcast services bump.1 bump.2) state) state

theorem recordedClaim_performBumps {state : AppState} {id : String} {claim : Hash}
    (recorded : recordedClaim services call state.directories id = some claim)
    (bumps : List (SwapCall × BtcClaimBumpRequest)) :
    recordedClaim services call (performBumps services state bumps).directories id =
      some claim := by
  induction bumps generalizing state with
  | nil => exact recorded
  | cons bump bumps ih => exact ih (recordedClaim_bump recorded)

theorem claimPlan_claims {id : String} {state : AppState} {plan : ClaimPlan}
    (planned : claimPlan services call id state = .ok plan) :
    plan.order.key = id ∧ plan.swap.btcClaimTxid = some plan.txid := by
  simp only [claimPlan, Checked.bind_eq_ok, Checked.required_eq_ok, Checked.pure_eq_ok]
    at planned
  obtain ⟨order, found, swap, -, -, -, -, -, -, -, -, -, -, -, -, -, -, -, -, -, -, -, -, -, -, -,
    -, -, -, -, -, -, -, rfl⟩ := planned
  exact ⟨SwapOrderBook.getOrder_key found, rfl⟩

theorem final_claim_of_planned {id : String} {state : AppState} {plan : ClaimPlan}
    (planned : claimPlan services call id state = .ok plan) :
    Retained.final (claimBtcWithVerification services call id) state =
      Retained.final (commit services call id plan.order plan.swap
        (broadcastBtc call plan.raw)) state := by
  unfold Retained.final claimBtcWithVerification
  rw [Retained.run_get_bind, Retained.run_ofExcept_bind, planned]
  simp only [Retained.run_bind]
  cases commit services call id plan.order plan.swap (broadcastBtc call plan.raw) state <;> rfl

theorem recordedClaim_of_claim (durable : services.durable = true) {id : String}
    {state : AppState} {order : SwapOrder} {swap : SwapState} {later : List SwapEvent}
    (saved : (Retained.final (claimBtcWithVerification services call id) state).events =
      state.events ++ .persisted order (some swap) :: later) :
    ∃ claim, swap.btcClaimTxid = some claim ∧
      recordedClaim services call
        (Retained.final (claimBtcWithVerification services call id) state).directories id =
          some claim := by
  cases planned : claimPlan services call id state with
  | error reason =>
      have refused : claimBtcWithVerification services call id state = .error reason state := by
        unfold claimBtcWithVerification
        rw [Retained.run_get_bind, Retained.run_ofExcept_bind, planned]
      rw [Retained.final_of_error refused] at saved
      simp at saved
  | ok plan =>
      obtain ⟨key, claims⟩ := claimPlan_claims planned
      rw [final_claim_of_planned planned] at saved ⊢
      cases decided : journal services call plan.order (some plan.swap) state.directories with
      | error reason =>
          rw [Retained.final_of_error (by rw [commit_run, decided])] at saved
          simp at saved
      | ok written =>
          rw [final_commit_of_written decided] at saved ⊢
          simp only [List.append_cancel_left_eq, List.cons.injEq, SwapEvent.persisted.injEq,
            Option.some.injEq] at saved
          refine ⟨plan.txid, saved.1.2 ▸ claims, ?_⟩
          rw [← claims, ← key]
          exact recordedClaim_of_journal durable decided

end Theorems

/-! ## One exchange -/

namespace Exchange

def crypto : Crypto where
  sha256 _ := zeroHash
  sha1 _ := List.Vector.replicate 20 0
  ripemd160 _ := List.Vector.replicate 20 0
  signatureFromDer _ := true
  publicKeyFromSlice _ := true
  verifyEcdsa _ _ _ := true
  recoverableFromCompact _ := .ok ()
  recoverEcdsa _ _ _ := .error "no key"
  base58 _ := ""

def decodeBase58 (text : String) : Option Bytes :=
  some (70 :: List.replicate 20 (if text = "maker" then 1 else 2) ++ [0, 0, 0, 0])

def txidFromStr (text : String) : Option Hash :=
  match hexDecode text.toList with
  | none => none
  | some bytes => if sized : bytes.length = 32 then some ⟨bytes, sized⟩ else none

/-- A transaction is written as a byte that names it and the value of its first output in
thousands. -/
def bitcoin : Btc.Bitcoin where
  txidToString txid := hexEncode txid.toList
  txidFromStr := txidFromStr
  addressScript _ := none
  addressHash160 _ := .ok (List.Vector.replicate 20 0)
  p2wshAddress _ := "contract"
  sha256 _ := zeroHash
  deserialize raw :=
    match raw with
    | [name, value] => .ok {
        txid := List.Vector.replicate 32 name
        input := []
        output := [⟨1000 * value.toNat, []⟩]
        isCoinbase := false }
    | _ => .error "unreadable"

def signed (draft : Btc.Draft) : Btc.Transaction where
  txid := List.Vector.replicate 32 (UInt8.ofNat
    ((draft.output.map Btc.TxOut.value).headD 0 / 1000 + if draft.lockTime = 0 then 0 else 100))
  input := [⟨draft.previousTxid, draft.previousVout, []⟩]
  output := draft.output
  isCoinbase := false

def signer : Btc.Signer where
  deriveWifForAddress _ := .ok "key"
  currentAddress := .ok "change"
  parseAddress _ := .ok [0x51]
  signFundingTx draft _ _ := .ok (signed draft)
  signClaimTx _ draft _ _ := .ok (signed draft)
  signRefundTx _ draft _ := .ok (signed draft)
  serialize tx := [tx.txid.head, UInt8.ofNat ((tx.output.map Btc.TxOut.value).headD 0 / 1000)]

def services : SwapServices where
  network := ⟨crypto, []⟩
  decodeBase58 := decodeBase58
  signInputOverSubscript _ _ _ _ := .ok ([0x30], [0x02])
  bitcoin := bitcoin
  signer := signer
  recoveryNamespace _ := .ok "wallet"
  durable := true

def order : SwapOrder where
  orderId := zeroHash
  makerAddress := "maker"
  makerBtcAddress := some "makerBtc"
  vtrAmount := 100000
  targetAsset := "BTC"
  targetAmount := 50000
  hashLock := some zeroHash
  fundingTxid := some zeroHash
  takerAddress := some "taker"
  preimage := some zeroHash
  expiry := 1700100000
  createdAt := 1699900000
  status := .matched

/-- The output that funds the order on this chain. -/
def fundingUtxo : Utxo where
  txid := zeroHash
  vout := 0
  value := 100000
  scriptPubkey := Htlc.claimBytes zeroHash (List.Vector.replicate 20 2) ++
    Htlc.refundBytes 1700100000 (List.Vector.replicate 20 1)
  height := 1
  timestamp := 1699900000

def chain : Chain :=
  { Chain.blank true with
    utxoSet := ExtTreeMap.ofList [((⟨zeroHash, 0⟩ : OutPoint), fundingUtxo)]
    heightIndex := List.replicate 10 zeroHash }

/-- A call at a time at which everything outside works. -/
def callAt (now : UInt64) : SwapCall where
  chain := chain
  authorized := .ok ()
  signingKey := .ok "key"
  unlocked := true
  walletWif := some "key"
  now := now
  verified _ _ := .ok ()
  later := now
  disk := .ok ()
  save := .ok ()
  submitted _ := .ok ()
  resubmitted := .ok zeroHash
  broadcast _ := .ok ()

def wallet : Btc.BtcWallet where
  utxos := { Btc.UtxoSet.new with
    utxos := [⟨hexEncode (List.replicate 32 7), 0, 100000, "wallet", 1⟩] }
  file := some Btc.UtxoSet.new
  lastScannedHeight := 1
  rescanOnSync := false
  completedScan := none
  synced := true

def vtrFunded : AppState where
  orderBook := [order]
  swaps := ExtTreeMap.ofList [(order.key, { SwapState.new zeroHash zeroHash with
    vtrFundingTxid := some zeroHash
    status := .vtrFunded })]
  btcWallet := some wallet
  directories := ∅
  events := []

def funded : AppState :=
  Retained.final (fundBtcWithBroadcast services (callAt 1700000000) ⟨order.key, "wallet"⟩)
    vtrFunded

def claimed : AppState :=
  Retained.final (claimBtcWithVerification services (callAt 1700001000) order.key) funded

def request : BtcClaimBumpRequest :=
  ⟨order.key, hexEncode (List.replicate 32 49), 2000, true⟩

def claimedSwap : SwapState :=
  { SwapState.new zeroHash zeroHash with
    vtrFundingTxid := some zeroHash
    btcFundingTxid := some (List.Vector.replicate 32 50)
    makerBtcAddress := some "makerBtc"
    takerBtcRefundAddress := some "wallet"
    btcAmount := 50000
    btcExpiry := 1700078400
    btcClaimTxid := some (List.Vector.replicate 32 49)
    btcFundingRaw := some [50, 50]
    btcClaimRaw := some [49, 49]
    status := .settling }

def replacedSwap : SwapState :=
  claimedSwap.withReplacement (List.Vector.replicate 32 48) 2000 1700002000 [48, 48]

/-- The journal refuses the replacement, which stays in memory. -/
def bumped : AppState :=
  performBumps services claimed [(callAt 1700002000, request)]

/-- Replace the replacement, at a still higher fee. -/
def secondRequest : BtcClaimBumpRequest :=
  ⟨order.key, hexEncode (List.replicate 32 48), 3000, true⟩

def sameFee : BtcClaimBumpRequest := { request with totalFeeSatoshis := 1000 }

/-- The claim is saved and broadcast; its replacement is planned at a higher fee, but not at the
same one. -/
theorem claimed_and_planned :
    (claimed.events = funded.events ++
        [.persisted order (some claimedSwap), .broadcast [49, 49]] ∧
      claimed.swaps[order.key]? = some claimedSwap) ∧
    bumpPlan services (callAt 1700002000) request claimed =
      .ok (.fresh order replacedSwap [48, 48] (List.Vector.replicate 32 48)
        (List.Vector.replicate 32 49)) ∧
    bumpPlan services (callAt 1700002000) sameFee claimed =
      .error (.badRequest "Replacement total fee must strictly increase") := by
  decide +kernel

theorem approved_request : Approved services (callAt 1700002000) request claimed order
    claimedSwap [48, 48] (List.Vector.replicate 32 48) (List.Vector.replicate 32 49) :=
  approved_of_planned claimed_and_planned.2.1 claimed_and_planned.1.2

theorem recordedClaim_claimed :
    recordedClaim services (callAt 1700002000) claimed.directories order.key =
      some (List.Vector.replicate 32 49) := by
  obtain ⟨claim, claims, recorded⟩ := recordedClaim_of_claim rfl claimed_and_planned.1.1
  rw [@recordedClaim_congr services (callAt 1700002000) (callAt 1700001000) rfl]
  exact recorded.trans claims.symm

theorem refused_request : ∃ error, bumpWithBroadcast services (callAt 1700002000) request
    claimed = .error error
      { claimed with swaps := claimed.swaps.insert order.key replacedSwap } := by
  cases decided : journal services (callAt 1700002000) order (some replacedSwap)
      claimed.directories with
  | ok written =>
      obtain ⟨-, allowed⟩ := (journals_replacement_iff rfl).mp ⟨written, decided⟩
      rw [recordedClaim_claimed] at allowed
      exact absurd allowed (by decide)
  | error error => exact ⟨error, bump_of_refused claimed_and_planned.2.1 decided⟩

theorem bumped_eq :
    bumped = { claimed with swaps := claimed.swaps.insert order.key replacedSwap } := by
  obtain ⟨error, refused⟩ := refused_request
  rw [bumped, performBumps, List.foldl_cons, List.foldl_nil, Retained.final_of_error refused]

theorem approved_secondRequest : Approved services (callAt 1700003000) secondRequest bumped
    order replacedSwap [47, 47] (List.Vector.replicate 32 47) (List.Vector.replicate 32 48) := by
  have planned : bumpPlan services (callAt 1700003000) secondRequest bumped =
      .ok (.fresh order (replacedSwap.withReplacement (List.Vector.replicate 32 47) 3000
        1700003000 [47, 47]) [47, 47] (List.Vector.replicate 32 47)
        (List.Vector.replicate 32 48)) := by
    rw [bumped_eq]
    decide +kernel
  refine approved_of_planned planned ?_
  rw [bumped_eq, show secondRequest.orderId = order.key from rfl,
    ExtTreeMap.getElem?_insert_self]

end Exchange

section Results

variable {services : SwapServices} {call : SwapCall}

/-- A refused bump leaves the swap in memory alone exactly when every request that may
replace the current claim finds a journal that takes it and holds no claim yet. -/
theorem bump_error_keeps_swaps_iff {req : BtcClaimBumpRequest} {state : AppState}
    (apart : ∀ {order swap raw txid parent},
      Approved services call req state order swap raw txid parent →
        recordedClaim services call state.directories req.orderId ≠ some txid) :
    (∀ error after, bumpWithBroadcast services call req state = .error error after →
        after.broadcasts = state.broadcasts → after.swaps = state.swaps) ↔
      ∀ order swap raw txid parent,
        Approved services call req state order swap raw txid parent →
          Journals services call state.directories order { swap with btcClaimTxid := none } ∧
          recordedClaim services call state.directories req.orderId = none := by
  constructor
  · intro keeps order swap raw txid parent approved
    have planned := bumpPlan_fresh_iff.mpr ⟨swap, approved, rfl⟩
    have key : order.key = req.orderId := SwapOrderBook.getOrder_key approved.ordered
    by_cases journals : Journals services call state.directories order
        (swap.withReplacement txid req.totalFeeSatoshis call.now raw)
    · obtain ⟨taken, allowed⟩ := (journals_replacement_iff approved.durable).mp journals
      rw [key] at taken allowed
      have none := allowed.resolve_right (apart approved)
      exact ⟨none ▸ taken, none⟩
    · cases refused : journal services call order
          (some (swap.withReplacement txid req.totalFeeSatoshis call.now raw))
          state.directories with
      | ok directories => exact absurd ⟨directories, refused⟩ journals
      | error error =>
          have changed := keeps error _ (bump_of_refused planned refused) rfl
          have held : (state.swaps.insert req.orderId
              (swap.withReplacement txid req.totalFeeSatoshis call.now raw))[req.orderId]? =
                state.swaps[req.orderId]? := congrArg (·[req.orderId]?) changed
          rw [ExtTreeMap.getElem?_insert_self, approved.held] at held
          exact absurd (Option.some.inj held) (withReplacement_ne _ _ _ _ _)
  · intro condition error after failed quiet
    cases plan : bumpPlan services call req state with
    | error reason =>
        rw [bumpWithBroadcast_run, plan] at failed
        cases failed
        rfl
    | ok planned =>
        cases planned with
        | again retry parent =>
            rw [bumpWithBroadcast_run, plan] at failed
            cases failed
        | fresh order replaced raw txid parent =>
            obtain ⟨swap, approved, rfl⟩ := bumpPlan_fresh_iff.mp plan
            obtain ⟨taken, none⟩ := condition _ _ _ _ _ approved
            have key : order.key = req.orderId := SwapOrderBook.getOrder_key approved.ordered
            obtain ⟨directories, written⟩ :=
              (@journals_replacement_iff services call _ _ _ txid _ _ _ approved.durable).mpr
                ⟨by rw [key, none]; exact taken, .inl (key ▸ none)⟩
            rw [← Retained.final_of_error failed, final_bump_of_written plan written] at quiet
            simp [AppState.broadcasts] at quiet

theorem bump_error_keeps_swaps_of_same_fee :
    ∃ error after, bumpWithBroadcast Exchange.services (Exchange.callAt 1700002000)
        Exchange.sameFee Exchange.claimed = .error error after ∧
      after.broadcasts = Exchange.claimed.broadcasts ∧
      after.swaps = Exchange.claimed.swaps := by
  obtain ⟨-, -, refused⟩ := Exchange.claimed_and_planned
  have unapproved : ∀ {order swap raw txid parent}, ¬ Approved Exchange.services
      (Exchange.callAt 1700002000) Exchange.sameFee Exchange.claimed order swap raw txid
        parent := by
    intro order swap raw txid parent approved
    have planned := bumpPlan_fresh_iff.mpr ⟨swap, approved, rfl⟩
    rw [refused] at planned
    cases planned
  have ran : bumpWithBroadcast Exchange.services (Exchange.callAt 1700002000) Exchange.sameFee
      Exchange.claimed = .error (.badRequest "Replacement total fee must strictly increase")
        Exchange.claimed := by
    rw [bumpWithBroadcast_run, refused]
  exact ⟨_, _, ran, rfl, (bump_error_keeps_swaps_iff fun approved => absurd approved
    unapproved).mpr (fun _ _ _ _ _ approved => absurd approved unapproved) _ _ ran rfl⟩

/-- The journal refuses the replacement, and memory names a claim that was never broadcast. -/
theorem refused_bump_changes_swap :
    ∃ error after, bumpWithBroadcast Exchange.services (Exchange.callAt 1700002000)
        Exchange.request Exchange.claimed = .error error after ∧
      after.broadcasts = Exchange.claimed.broadcasts ∧
      (Exchange.claimed.swaps[Exchange.order.key]?.bind SwapState.btcClaimTxid) =
        some (List.Vector.replicate 32 49) ∧
      (after.swaps[Exchange.order.key]?.bind SwapState.btcClaimTxid) =
        some (List.Vector.replicate 32 48) := by
  obtain ⟨error, refused⟩ := Exchange.refused_request
  refine ⟨error, _, refused, broadcasts_withSwaps _ _, ?_, ?_⟩
  · rw [Exchange.claimed_and_planned.1.2]
    rfl
  · rw [ExtTreeMap.getElem?_insert_self]
    rfl

/-- Once a claim is saved, an approved replacement of it is refused, and neither saved nor
broadcast, whatever bumps were requested in between. -/
theorem saved_claim_never_replaced {claimCall : SwapCall} {id : String} {before : AppState}
    {order : SwapOrder} {swap : SwapState} {later : List SwapEvent}
    (saved : (Retained.final (claimBtcWithVerification services claimCall id) before).events =
      before.events ++ .persisted order (some swap) :: later)
    (bumps : List (SwapCall × BtcClaimBumpRequest)) {req : BtcClaimBumpRequest}
    {order' : SwapOrder} {swap' : SwapState} {raw : Bytes} {txid parent : Hash}
    (same : req.orderId = id ∧ call.walletWif = claimCall.walletWif)
    (approved : Approved services call req (performBumps services
      (Retained.final (claimBtcWithVerification services claimCall id) before) bumps)
      order' swap' raw txid parent)
    (apart : swap.btcClaimTxid ≠ some txid) :
    let state := performBumps services
      (Retained.final (claimBtcWithVerification services claimCall id) before) bumps
    ∃ error after, bumpWithBroadcast services call req state = .error error after ∧
      after.events = state.events := by
  obtain ⟨claim, claims, recorded⟩ := recordedClaim_of_claim approved.durable saved
  replace recorded := recordedClaim_performBumps recorded bumps
  generalize performBumps services
    (Retained.final (claimBtcWithVerification services claimCall id) before) bumps = state
    at approved recorded
  have key : order'.key = id := (SwapOrderBook.getOrder_key approved.ordered).trans same.1
  have planned := bumpPlan_fresh_iff.mpr ⟨swap', approved, rfl⟩
  cases decided : journal services call order'
      (some (swap'.withReplacement txid req.totalFeeSatoshis call.now raw))
      state.directories with
  | ok written =>
      obtain ⟨-, allowed⟩ := (journals_replacement_iff approved.durable).mp ⟨written, decided⟩
      have held : recordedClaim services call state.directories order'.key = some claim := by
        rw [key, recordedClaim_congr same.2, recorded]
      rw [held] at allowed
      rw [claims] at apart
      exact absurd allowed (by simpa using apart)
  | error error => exact ⟨error, _, bump_of_refused planned decided, rfl⟩

/-- Two bumps in a row are refused. -/
theorem second_bump_refused :
    Approved Exchange.services (Exchange.callAt 1700003000) Exchange.secondRequest
        Exchange.bumped Exchange.order Exchange.replacedSwap [47, 47]
        (List.Vector.replicate 32 47) (List.Vector.replicate 32 48) ∧
      ∃ error after, bumpWithBroadcast Exchange.services (Exchange.callAt 1700003000)
          Exchange.secondRequest Exchange.bumped = .error error after ∧
        after.events = Exchange.bumped.events :=
  ⟨Exchange.approved_secondRequest, saved_claim_never_replaced
    Exchange.claimed_and_planned.1.1 [(Exchange.callAt 1700002000, Exchange.request)] ⟨rfl, rfl⟩
    Exchange.approved_secondRequest (by decide)⟩

/-- The claim is saved and broadcast, and an approved replacement of it is neither. -/
theorem approved_bump_refused :
    Exchange.claimed.events = Exchange.funded.events ++
        [.persisted Exchange.order (some Exchange.claimedSwap), .broadcast [49, 49]] ∧
      Approved Exchange.services (Exchange.callAt 1700002000) Exchange.request
        Exchange.claimed Exchange.order Exchange.claimedSwap [48, 48]
        (List.Vector.replicate 32 48) (List.Vector.replicate 32 49) ∧
      (Retained.final (bumpWithBroadcast Exchange.services (Exchange.callAt 1700002000)
        Exchange.request) Exchange.claimed).events = Exchange.claimed.events := by
  refine ⟨Exchange.claimed_and_planned.1.1, Exchange.approved_request, ?_⟩
  obtain ⟨error, refused⟩ := Exchange.refused_request
  exact (congrArg AppState.events (Retained.final_of_error refused)).trans
    (events_withSwaps _ _)

end Results

end Vtorrent
