import Vtorrent.SwapRecovery
import Vtorrent.SwapTransactions

/-!
# The handlers of a swap

Each handler checks its request against the state in memory, the chain and the clock,
records the transaction it has prepared, saves the swap and only then hands the transaction
on.  A handler that fails half way leaves in memory what it had written by then.
-/

namespace Vtorrent

open Std

/-- Third parties and settings. -/
structure SwapServices where
  network : Network
  decodeBase58 : String → Option Bytes
  signInputOverSubscript :
    Transaction → Nat → Bytes → String → Except String (Bytes × Bytes)
  bitcoin : Btc.Bitcoin
  signer : Btc.Signer
  /-- The record directory of a wallet key on this chain and network. -/
  recoveryNamespace : String → Except String String
  /-- `swap_recovery_dir` is set. -/
  durable : Bool

/-- What a call meets outside the swap state: the chain, the wallet lock, the clock, the disk
and the answers of peers. -/
structure SwapCall where
  chain : Chain
  authorized : Except RpcError Unit
  signingKey : Except RpcError String
  unlocked : Bool
  walletWif : Option String
  now : UInt64
  verified : Btc.BtcHtlc → Hash → Except RpcError Unit
  /-- The clock after the verification. -/
  later : UInt64
  disk : Except String Unit
  save : Except String Unit
  submitted : Transaction → Except RpcError Unit
  resubmitted : Except RpcError Hash
  broadcast : Bytes → Except RpcError Unit

/-- What has left the handlers, in order. -/
inductive SwapEvent where
  | persisted (order : SwapOrder) (swap : Option SwapState)
  | broadcast (raw : Bytes)
  | submitted (tx : Transaction)
deriving DecidableEq

structure AppState where
  orderBook : SwapOrderBook
  swaps : SwapRecovery.Swaps
  btcWallet : Option Btc.BtcWallet
  directories : SwapRecovery.Directories
  events : List SwapEvent

abbrev SwapStep := EStateM RpcError AppState

structure SwapActionResponse where
  orderId : String
  txid : String
  status : String

/-! ## Texts -/

def hexValue (digit : Char) : Option Nat :=
  if '0' ≤ digit ∧ digit ≤ '9' then some (digit.toNat - 48)
  else if 'a' ≤ digit ∧ digit ≤ 'f' then some (digit.toNat - 87)
  else if 'A' ≤ digit ∧ digit ≤ 'F' then some (digit.toNat - 55)
  else none

/-- `hex::decode`. -/
def hexDecode : List Char → Option Bytes
  | [] => some []
  | [_] => none
  | high :: low :: digits => do
      let high ← hexValue high
      let low ← hexValue low
      let bytes ← hexDecode digits
      pure (UInt8.ofNat (16 * high + low) :: bytes)

def parseHash32 (value field : String) : Except RpcError Hash :=
  match hexDecode value.toList with
  | none => .error (.badRequest ("Invalid " ++ field ++
      " hex: expected 64 hex characters, got \"" ++ String.ofList (value.toList.take 64) ++
      "\""))
  | some bytes =>
      if sized : bytes.length = 32 then .ok ⟨bytes, sized⟩
      else .error (.badRequest (field ++ " must be exactly 32 bytes (64 hex chars), got " ++
        toString bytes.length ++ " bytes (" ++ toString value.utf8ByteSize ++ " hex chars)"))

/-- Bitcoin ids are displayed backwards. -/
def btcTxidHex (txid : Hash) : String := hexEncode txid.toList.reverse

/-- The `Debug` text of a status. -/
def SwapStatus.debug : SwapStatus → String
  | .funding => "Funding"
  | .vtrFunded => "VtrFunded"
  | .btcFunding => "BtcFunding"
  | .btcFunded => "BtcFunded"
  | .settling => "Settling"
  | .claimed => "Claimed"
  | .refunded => "Refunded"

/-! ## Saving and handing on -/

section Steps

variable (services : SwapServices) (call : SwapCall)

def journal (order : SwapOrder) (swap : Option SwapState)
    (directories : SwapRecovery.Directories) : Except RpcError SwapRecovery.Directories := do
  match swap with
  | none => pure ()
  | some swap =>
      RefundLineage.validate services.network.crypto services.decodeBase58 order swap
  if services.durable then do
    rejectIf (!call.unlocked) RpcError.walletLocked
    let wif ← required RpcError.walletLocked call.walletWif
    let name ← (services.recoveryNamespace wif).mapError SwapRecovery.failure
    SwapRecovery.write services.network.crypto services.decodeBase58 call.disk directories name
      { version := 1, order := order, swap := swap }
  else pure directories

def persist (order : SwapOrder) (swap : Option SwapState) : SwapStep Unit := fun state =>
  match journal services call order swap state.directories with
  | .ok directories =>
      .ok () { state with
        directories := directories
        events := state.events ++ [.persisted order swap] }
  | .error error => .error error state

def broadcastBtc (raw : Bytes) : SwapStep Unit := fun state =>
  let handed := { state with events := state.events ++ [.broadcast raw] }
  match call.broadcast raw with
  | .ok _ => .ok () handed
  | .error error => .error error handed

def setSwap (id : String) (swap : SwapState) : SwapStep Unit :=
  modify fun state => { state with swaps := state.swaps.insert id swap }

def setWallet (wallet : Btc.BtcWallet) : SwapStep Unit :=
  modify fun state => { state with btcWallet := some wallet }

/-- Record a prepared transaction, save the swap and hand the transaction on. -/
def commit (id : String) (order : SwapOrder) (swap : SwapState) (hand : SwapStep Unit) :
    SwapStep Unit := do
  setSwap id swap
  persist services call order (some swap)
  hand

theorem commit_run (id : String) (order : SwapOrder) (swap : SwapState) (hand : SwapStep Unit)
    (state : AppState) :
    commit services call id order swap hand state =
      match journal services call order (some swap) state.directories with
      | .error error => .error error { state with swaps := state.swaps.insert id swap }
      | .ok directories => hand
          { state with
            swaps := state.swaps.insert id swap
            directories := directories
            events := state.events ++ [.persisted order (some swap)] } := by
  unfold commit setSwap
  rw [Retained.run_bind]
  change (persist services call order (some swap) >>= fun _ => hand) _ = _
  rw [Retained.run_bind]
  unfold persist
  dsimp only
  cases journal services call order (some swap) state.directories <;> rfl

/-! ## Funding on the Bitcoin side -/

structure BtcFundRequest where
  orderId : String
  btcRefundAddress : String

structure BtcFundResponse where
  orderId : String
  btcFundingTxid : String
  status : String

/-- What a funding request leads to. -/
inductive FundPlan where
  | done (txid : Hash)
  | retry (order : SwapOrder) (swap : SwapState) (raw : Bytes)
  | fresh (order : SwapOrder) (swap : SwapState) (makerBtcAddress : String)
      (wallet : Btc.BtcWallet) (terms : VerifiedSwapFunding)

def fundPlan (req : BtcFundRequest) (state : AppState) : Except RpcError FundPlan := do
  call.authorized
  let order ← required (RpcError.notFound ("Order " ++ req.orderId ++ " not found"))
    (state.orderBook.getOrder req.orderId)
  let makerBtcAddress ← required (RpcError.badRequest "Order has no maker BTC address")
    order.makerBtcAddress
  let swap ← required (RpcError.badRequest "VTR leg not funded yet — fund the order first")
    state.swaps[req.orderId]?
  rejectIf (swap.btcFundingRaw.isSome &&
      swap.takerBtcRefundAddress != some req.btcRefundAddress)
    (RpcError.badRequest "BTC refund address differs from the reserved funding transaction")
  if swap.status = .btcFunded then do
    let txid ← required (RpcError.internal "BTC funding txid missing") swap.btcFundingTxid
    pure (.done txid)
  else do
    rejectIf (swap.status != .vtrFunded && swap.status != .btcFunding)
      (RpcError.badRequest ("Cannot fund BTC in swap state " ++ swap.status.debug))
    rejectIf (swap.vtrFundingTxid != order.fundingTxid || order.hashLock != some swap.hashLock)
      (RpcError.badRequest "VTR order and swap funding disagree")
    let wallet ← required (RpcError.badRequest "BTC wallet not initialized") state.btcWallet
    let terms ← (verifyVtrSwapFunding services.network.crypto services.decodeBase58 call.chain
      order call.now).mapError RpcError.badRequest
    match swap.btcFundingRaw with
    | some raw => do
        rejectIf (decide (swap.btcExpiry.toNat <
            (saturatingAdd call.now (UInt64.ofNat minBtcSwapWindow)).toNat))
          (RpcError.badRequest ("Reserved BTC funding window has elapsed; " ++
            "reconcile the recorded transaction before recovery"))
        pure (.retry order swap raw)
    | none => pure (.fresh order swap makerBtcAddress wallet terms)

def fundResponse (id : String) (txid : Hash) : BtcFundResponse where
  orderId := id
  btcFundingTxid := btcTxidHex txid
  status := "BtcFunded"

def SwapState.withFunding (swap : SwapState) (txid : Hash) (raw : Bytes)
    (makerBtcAddress refundAddress : String) (amount : UInt64) (expiry : UInt32) :
    SwapState :=
  { swap with
    btcFundingTxid := some txid
    btcFundingRaw := some raw
    makerBtcAddress := some makerBtcAddress
    takerBtcRefundAddress := some refundAddress
    btcAmount := amount
    btcExpiry := expiry
    status := .btcFunding }

/-- Errors inside the shared funding path are reported as bad requests. -/
def fundingError (error : RpcError) : RpcError := .badRequest error.message

def fundFresh (req : BtcFundRequest) (order : SwapOrder) (swap : SwapState)
    (makerBtcAddress : String) (wallet : Btc.BtcWallet) (terms : VerifiedSwapFunding) :
    SwapStep BtcFundResponse := do
  let funding ← Retained.ofExcept ((Btc.buildFunding services.bitcoin services.signer wallet
    terms req.btcRefundAddress).mapError RpcError.badRequest)
  let wallet ← Retained.ofExcept ((wallet.reserveSwapInput services.bitcoin call.save
    funding.input funding.raw terms.orderId funding.htlc).mapError fun error =>
      RpcError.badRequest error.message)
  setWallet wallet
  let tx ← Retained.ofExcept ((services.bitcoin.deserialize funding.raw).mapError
    RpcError.badRequest)
  let prepared := swap.withFunding tx.txid funding.raw makerBtcAddress req.btcRefundAddress
    order.targetAmount terms.btcExpiry
  Retained.relabel fundingError
    (commit services call req.orderId order prepared (broadcastBtc call funding.raw))
  setSwap req.orderId { prepared with status := .btcFunded }
  pure (fundResponse req.orderId funding.txid)

def fundAgain (id : String) (order : SwapOrder) (swap : SwapState) (raw : Bytes) :
    SwapStep BtcFundResponse := do
  persist services call order (some swap)
  broadcastBtc call raw
  setSwap id { swap with status := .btcFunded }
  let txid ← Retained.ofExcept (required (RpcError.internal "Reserved BTC txid missing")
    swap.btcFundingTxid)
  pure (fundResponse id txid)

def fundBtcWithBroadcast (req : BtcFundRequest) : SwapStep BtcFundResponse := do
  let state ← get
  match ← Retained.ofExcept (fundPlan services call req state) with
  | .done txid => pure (fundResponse req.orderId txid)
  | .retry order swap raw => fundAgain services call req.orderId order swap raw
  | .fresh order swap makerBtcAddress wallet terms =>
      fundFresh services call req order swap makerBtcAddress wallet terms

/-! ## Claims -/

def windowClosed (now : UInt64) (expiry : UInt32) : Bool :=
  decide (expiry.toNat ≤ (saturatingAdd now (UInt64.ofNat minBtcSwapWindow)).toNat)

structure ClaimPlan where
  order : SwapOrder
  swap : SwapState
  raw : Bytes
  txid : Hash

def SwapState.btcHtlc (swap : SwapState) (hashLock : Hash)
    (makerBtcAddress refundAddress : String) : Btc.BtcHtlc where
  hashLock := hashLock
  recipient := makerBtcAddress
  refundAddress := refundAddress
  expiry := swap.btcExpiry
  amount := swap.btcAmount

def claimPlan (id : String) (state : AppState) : Except RpcError ClaimPlan := do
  let order ← required (RpcError.notFound "Swap order not found") (state.orderBook.getOrder id)
  let swap ← required (RpcError.notFound ("Swap " ++ id ++ " not found")) state.swaps[id]?
  rejectIf swap.btcRefundTxid.isSome (RpcError.badRequest "BTC refund already submitted")
  rejectIf swap.vtrRefundTxid.isSome (RpcError.badRequest
    "VTR refund already submitted; refusing to reveal the swap secret")
  rejectIf (windowClosed call.now swap.btcExpiry) (RpcError.badRequest
    "BTC claim window is too close to refund eligibility to reveal the secret safely")
  let preimage ← required (RpcError.badRequest "Preimage not available")
    (swap.preimage.or order.preimage)
  let fundingTxid ← required (RpcError.badRequest "BTC funding txid not recorded")
    swap.btcFundingTxid
  let makerBtcAddress ← required (RpcError.badRequest "Maker BTC address not recorded")
    swap.makerBtcAddress
  let refundAddress ← required (RpcError.badRequest "Taker BTC refund address not recorded")
    swap.takerBtcRefundAddress
  let hashLock ← required (RpcError.badRequest "Order hash lock missing") order.hashLock
  rejectIf (services.network.crypto.sha256 preimage.toList != hashLock ||
      swap.hashLock != hashLock || order.makerBtcAddress != some makerBtcAddress ||
      order.targetAmount != swap.btcAmount || decide (swap.btcExpiry.toNat < 500000000) ||
      decide (2 ^ 32 ≤ swap.btcExpiry.toNat + swapClaimSafetyMargin) ||
      decide (order.expiry.toNat < swap.btcExpiry.toNat + swapClaimSafetyMargin))
    (RpcError.badRequest "BTC claim terms do not match the order or safe expiry policy")
  call.verified (swap.btcHtlc hashLock makerBtcAddress refundAddress) fundingTxid
  rejectIf (windowClosed call.later swap.btcExpiry)
    (RpcError.badRequest "BTC claim window expired during funding verification")
  let _ ← (verifyVtrSwapFunding services.network.crypto services.decodeBase58 call.chain order
    call.later).mapError RpcError.badRequest
  let _ ← required (RpcError.badRequest "BTC wallet not initialized") state.btcWallet
  let (raw, txid) ← (Btc.buildBtcHtlcClaim services.bitcoin services.signer
    services.network.crypto
    { fundingTxid := fundingTxid
      preimage := preimage
      makerBtcAddress := makerBtcAddress
      refundAddress := refundAddress
      expiry := swap.btcExpiry
      amount := swap.btcAmount }).mapError RpcError.badRequest
  pure {
    order := order
    swap := { swap with btcClaimTxid := some txid, btcClaimRaw := some raw }.refreshStatus
    raw := raw
    txid := txid }

/-- The maker reveals the preimage by claiming the bitcoins. -/
def claimBtcWithVerification (id : String) : SwapStep SwapActionResponse := do
  let state ← get
  let plan ← Retained.ofExcept (claimPlan services call id state)
  commit services call id plan.order plan.swap (broadcastBtc call plan.raw)
  pure { orderId := id, txid := btcTxidHex plan.txid, status := "BtcClaimSubmitted" }

end Steps

end Vtorrent
