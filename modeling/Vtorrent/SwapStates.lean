import Vtorrent.AtomicSwap

/-!
# Swap orders and swap states

An order says what the maker offers; a swap state says how far a swap has come on the two
chains.  Orders wait in a bounded book from which expired and cancelled ones are evicted.
-/

namespace Vtorrent

def vtrHtlcFeeSatoshis : UInt64 := 10000

def btcHtlcFeeSatoshis : UInt64 := 1000

inductive OrderStatus where
  | open
  | funding
  | matched
  | inProgress
  | completed
  | cancelled
deriving DecidableEq

structure SwapOrder where
  orderId : Hash
  makerAddress : String
  makerBtcAddress : Option String
  vtrAmount : UInt64
  targetAsset : String
  targetAmount : UInt64
  hashLock : Option Hash
  fundingTxid : Option Hash
  takerAddress : Option String
  preimage : Option Hash
  expiry : UInt32
  createdAt : UInt64
  status : OrderStatus
deriving DecidableEq

structure OrderAnnouncement where
  orderId : Hash
  makerAddress : String
  makerBtcAddress : Option String
  vtrAmount : UInt64
  targetAsset : String
  targetAmount : UInt64
  hashLock : Option Hash
  expiry : UInt32
deriving DecidableEq

def OrderAnnouncement.fromOrder (order : SwapOrder) : OrderAnnouncement where
  orderId := order.orderId
  makerAddress := order.makerAddress
  makerBtcAddress := order.makerBtcAddress
  vtrAmount := order.vtrAmount
  targetAsset := order.targetAsset
  targetAmount := order.targetAmount
  hashLock := order.hashLock
  expiry := order.expiry

def SwapOrder.key (order : SwapOrder) : String := hexEncode order.orderId.toList

inductive SwapStatus where
  | funding
  | vtrFunded
  | btcFunding
  | btcFunded
  | settling
  | claimed
  | refunded
deriving DecidableEq

structure VtrRefundReplacement where
  replacesTxid : Hash
  totalFeeSatoshis : UInt64
  approvedAt : UInt64
  transaction : Transaction
deriving DecidableEq

structure BtcClaimReplacement where
  replacesTxid : Hash
  totalFeeSatoshis : UInt64
  approvedAt : UInt64
  raw : Bytes
deriving DecidableEq

/-- How far a swap has come on both chains. -/
structure SwapState where
  orderId : Hash
  hashLock : Hash
  preimage : Option Hash
  vtrFundingTxid : Option Hash
  btcFundingTxid : Option Hash
  makerBtcAddress : Option String
  takerBtcRefundAddress : Option String
  btcAmount : UInt64
  btcExpiry : UInt32
  vtrClaimTxid : Option Hash
  btcClaimTxid : Option Hash
  vtrRefundTxid : Option Hash
  btcRefundTxid : Option Hash
  btcRefundRaw : Option Bytes
  btcFundingRaw : Option Bytes
  btcClaimRaw : Option Bytes
  btcClaimReplacements : List BtcClaimReplacement
  vtrFundingTx : Option Transaction
  vtrClaimTx : Option Transaction
  vtrRefundTx : Option Transaction
  vtrRefundReplacements : List VtrRefundReplacement
  status : SwapStatus
deriving DecidableEq

namespace SwapState

def new (orderId hashLock : Hash) : SwapState where
  orderId := orderId
  hashLock := hashLock
  preimage := none
  vtrFundingTxid := none
  btcFundingTxid := none
  makerBtcAddress := none
  takerBtcRefundAddress := none
  btcAmount := 0
  btcExpiry := 0
  vtrClaimTxid := none
  btcClaimTxid := none
  vtrRefundTxid := none
  btcRefundTxid := none
  btcRefundRaw := none
  btcFundingRaw := none
  btcClaimRaw := none
  btcClaimReplacements := []
  vtrFundingTx := none
  vtrClaimTx := none
  vtrRefundTx := none
  vtrRefundReplacements := []
  status := .funding

def statusOf (swap : SwapState) : SwapStatus :=
  if swap.vtrClaimTxid.isSome && swap.btcClaimTxid.isSome then .claimed
  else if (swap.vtrRefundTxid.isSome || swap.vtrFundingTxid.isNone) &&
      (swap.btcRefundTxid.isSome || swap.btcFundingTxid.isNone) &&
      (swap.vtrRefundTxid.isSome || swap.btcRefundTxid.isSome) then .refunded
  else if swap.vtrClaimTxid.isSome || swap.btcClaimTxid.isSome ||
      swap.vtrRefundTxid.isSome || swap.btcRefundTxid.isSome then .settling
  else if swap.btcFundingTxid.isSome then .btcFunded
  else if swap.vtrFundingTxid.isSome then .vtrFunded
  else .funding

def refreshStatus (swap : SwapState) : SwapState := { swap with status := swap.statusOf }

def latestBtcClaim (swap : SwapState) : Option BtcClaimReplacement :=
  swap.btcClaimReplacements.getLast?

end SwapState

/-- The orders known to the node, oldest first. -/
abbrev SwapOrderBook := List SwapOrder

namespace SwapOrderBook

def maxOrders : Nat := 10000

def evict (book : SwapOrderBook) (now : UInt32) : SwapOrderBook :=
  let kept := book.filter fun order =>
    order.status != .cancelled && (decide (now < order.expiry) || order.status != .open)
  if kept.length < maxOrders then kept
  else
    let excess := kept.length - maxOrders * 3 / 4
    let opened := (kept.zipIdx.filter fun entry => entry.1.status == .open).mergeSort
      fun first second => decide (first.1.expiry ≤ second.1.expiry)
    let remove := (opened.take excess).map Prod.snd
    (kept.zipIdx.filter fun entry => !remove.contains entry.2).map Prod.fst

def addOrder (book : SwapOrderBook) (now : UInt32) (order : SwapOrder) : SwapOrderBook :=
  (if maxOrders ≤ book.length then evict book now else book) ++ [order]

def getOrder (book : SwapOrderBook) (id : String) : Option SwapOrder :=
  book.find? fun order => order.key == id

theorem getOrder_key {book : SwapOrderBook} {id : String} {order : SwapOrder}
    (found : book.getOrder id = some order) : order.key = id := by
  simpa using List.find?_some found

def overwrite (order : SwapOrder) : SwapOrderBook → SwapOrderBook
  | [] => []
  | existing :: orders =>
      if existing.orderId = order.orderId then order :: orders
      else existing :: overwrite order orders

/-- Prefer recovered metadata to an unfunded announcement. -/
def restoreOrder (book : SwapOrderBook) (now : UInt32) (order : SwapOrder) : SwapOrderBook :=
  match book.find? fun existing => decide (existing.orderId = order.orderId) with
  | none => addOrder book now order
  | some existing =>
      if existing.preimage.isNone && existing.fundingTxid.isNone then overwrite order book
      else book

end SwapOrderBook

end Vtorrent
