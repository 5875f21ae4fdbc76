import Vtorrent.BtcWallet
import Vtorrent.ChainQueries
import Vtorrent.SwapStates

/-!
# The transactions of a swap

The terms under which a taker commits bitcoins, and the builders of the funding and claim
transactions on the Bitcoin side.  Keys and signatures are outside.
-/

namespace Vtorrent

/-! ## Policy -/

/-- Time for the taker to claim after the maker reveals the secret. -/
def swapClaimSafetyMargin : Nat := 6 * 3600

def minBtcSwapWindow : Nat := 3600

def vtrSwapConfirmations : Nat := 6

def defaultHtlcLocktime : Nat := 48 * 3600

/-- Contract terms checked against the chain. -/
structure VerifiedSwapFunding where
  orderId : String
  hashLock : Hash
  makerBtcAddress : String
  btcAmount : UInt64
  btcExpiry : UInt32

/-- A refund deadline on the Bitcoin side, before the one on the other chain. -/
def btcSwapExpiry (vtrExpiry : UInt32) (now : UInt64) : Except String UInt32 := do
  rejectIf (decide (2 ^ 32 ≤ now.toNat)) "Swap clock exceeds u32::MAX"
  rejectIf (decide (now.toNat < 500000000))
    "Swap clock must be a Unix timestamp, not a block height"
  rejectIf (decide (vtrExpiry.toNat < swapClaimSafetyMargin))
    "VTR expiry cannot accommodate the claim safety margin"
  rejectIf (decide (2 ^ 32 ≤ now.toNat + minBtcSwapWindow)) "BTC swap expiry overflow"
  let latest := vtrExpiry.toNat - swapClaimSafetyMargin
  rejectIf (decide (latest < now.toNat + minBtcSwapWindow))
    "VTR expiry is too close to fund BTC safely"
  pure (UInt32.ofNat (min latest (min (now.toNat + defaultHtlcLocktime) (2 ^ 32 - 1))))

section Policy

variable (crypto : Crypto) (decodeBase58 : String → Option Bytes)

/-- The output is what the order says, deep enough, and leaves time for the swap. -/
def verifyOutput (order : SwapOrder) (utxo : Utxo) (tipHeight : Nat) (now : UInt64) :
    Except String VerifiedSwapFunding := do
  rejectIf (order.targetAsset != "BTC" ||
    decide (order.targetAmount ≤ btcHtlcFeeSatoshis + 546) ||
    decide (order.vtrAmount ≤ vtrHtlcFeeSatoshis))
    "Swap amounts must exceed each chain's claim/refund fee"
  let hashLock ← required "Order has no hash lock" order.hashLock
  let taker ← required "Order has no taker address" order.takerAddress
  let makerBtcAddress ← required "Order has no maker BTC address" order.makerBtcAddress
  let htlc ← (Htlc.withExpiry crypto decodeBase58 hashLock taker order.makerAddress
    order.expiry order.vtrAmount).mapError NodeError.message
  let script ← (htlc.buildScript crypto decodeBase58).mapError NodeError.message
  rejectIf (some utxo.txid != order.fundingTxid || utxo.vout != 0 ||
    utxo.value != order.vtrAmount || utxo.scriptPubkey != script)
    "Confirmed VTR funding output does not match the order contract"
  let confirmations := if utxo.height ≤ tipHeight then tipHeight - utxo.height + 1 else 0
  rejectIf (decide (confirmations < vtrSwapConfirmations))
    ("VTR funding requires " ++ toString vtrSwapConfirmations ++ " confirmations; found " ++
      toString confirmations)
  let btcExpiry ← btcSwapExpiry order.expiry now
  pure {
    orderId := order.key
    hashLock := hashLock
    makerBtcAddress := makerBtcAddress
    btcAmount := order.targetAmount
    btcExpiry := btcExpiry }

def verifyVtrSwapFunding (chain : Chain) (order : SwapOrder) (now : UInt64) :
    Except String VerifiedSwapFunding := do
  let fundingTxid ← required "Order has no VTR funding txid" order.fundingTxid
  let utxo ← required "VTR funding output is unconfirmed, missing, or already spent"
    (chain.getUtxo fundingTxid 0)
  verifyOutput crypto decodeBase58 order utxo chain.bestHeight now

end Policy

/-! ## Transactions on the Bitcoin side -/

namespace Btc

/-- An unsigned transaction with one input. -/
structure Draft where
  lockTime : UInt32
  previousTxid : Hash
  previousVout : Nat
  sequence : UInt32
  output : List TxOut

/-- The keys of the wallet and the `bitcoin` functions that sign; errors are texts. -/
structure Signer where
  deriveWifForAddress : String → Except String String
  currentAddress : Except String String
  /-- The script of an address of the wallet's network. -/
  parseAddress : String → Except String Bytes
  /-- Sign the funding input, given its value and a key. -/
  signFundingTx : Draft → Nat → String → Except String Transaction
  signClaimTx : BtcHtlc → Draft → Hash → String → Except String Transaction
  signRefundTx : BtcHtlc → Draft → String → Except String Transaction
  serialize : Transaction → Bytes

section Build

variable (bitcoin : Bitcoin) (signer : Signer)

def parsedAddress (address : String) : Except String Bytes :=
  (signer.parseAddress address).mapError fun error => (BtcError.invalidAddress error).message

def BtcHtlc.buildFundingTx (htlc : BtcHtlc) (inputTxid : Hash) (inputVout inputValue : Nat)
    (fee : UInt64) (changeAddress : String) : Except String Draft := do
  let required := htlc.amount.toNat + fee.toNat
  rejectIf (decide (inputValue < required)) ("Insufficient funds: available " ++
    toString inputValue ++ " sats, required " ++ toString required ++ " sats")
  let change ← parsedAddress signer changeAddress
  let script ← (htlc.buildScript bitcoin).mapError BtcError.message
  let rest := inputValue - required
  pure {
    lockTime := 0
    previousTxid := inputTxid
    previousVout := inputVout
    sequence := 0xffffffff
    output := ⟨htlc.amount.toNat, toP2wsh bitcoin script⟩ ::
      if 0 < rest then [⟨rest, change⟩] else [] }

def BtcHtlc.buildClaimTx (htlc : BtcHtlc) (fundingTxid preimage : Hash) (fee : UInt64) :
    Except String Draft := do
  rejectIf (bitcoin.sha256 preimage.toList != htlc.hashLock)
    (BtcError.bitcoin "preimage does not match hash lock").message
  let recipient ← parsedAddress signer htlc.recipient
  rejectIf (decide (htlc.amount ≤ fee)) (BtcError.bitcoin ("fee " ++ toString fee ++
    " >= HTLC amount " ++ toString htlc.amount ++ "; refusing to build claim tx")).message
  pure {
    lockTime := 0
    previousTxid := fundingTxid
    previousVout := 0
    sequence := 0xfffffffd
    output := [⟨htlc.amount.toNat - fee.toNat, recipient⟩] }

/-- The outputs that may be selected; none while a rescan is due. -/
def BtcWallet.listUtxos (wallet : BtcWallet) : List Utxo :=
  if wallet.rescanOnSync then [] else wallet.utxos.utxos

/-- A signed funding transaction and what it spends. -/
structure Funding where
  htlc : BtcHtlc
  input : Utxo
  raw : Bytes
  txid : Hash

def fundingContract (terms : VerifiedSwapFunding) (refundAddress : String) : BtcHtlc where
  hashLock := terms.hashLock
  recipient := terms.makerBtcAddress
  refundAddress := refundAddress
  expiry := terms.btcExpiry
  amount := terms.btcAmount

/-- The part of `build_btc_htlc_funding` before the input is reserved. -/
def buildFunding (wallet : BtcWallet) (terms : VerifiedSwapFunding) (refundAddress : String) :
    Except String Funding := do
  let htlc := fundingContract terms refundAddress
  let needed := htlc.amount.toNat + btcHtlcFeeSatoshis.toNat
  rejectIf (decide (2 ^ 64 ≤ needed)) "BTC amount plus fee overflow"
  let input ← required "No single confirmed BTC UTXO can fund this HTLC"
    ((wallet.listUtxos.filter fun utxo =>
      decide (0 < utxo.height) && decide (needed ≤ utxo.value)).argmin Utxo.value)
  let funderWif ← signer.deriveWifForAddress input.address
  let _ ← signer.deriveWifForAddress refundAddress
  let changeAddress ← signer.currentAddress
  let inputTxid ← required ("Invalid UTXO txid: " ++ input.txid)
    (bitcoin.txidFromStr input.txid)
  let unsigned ← (htlc.buildFundingTx bitcoin signer inputTxid input.vout input.value
    btcHtlcFeeSatoshis changeAddress).mapError fun error =>
      "Unable to build BTC funding tx: " ++ error
  let signed ← (signer.signFundingTx unsigned input.value funderWif).mapError fun error =>
    "Unable to sign BTC funding tx: " ++ error
  pure { htlc := htlc, input := input, raw := signer.serialize signed, txid := signed.txid }

structure BtcClaimParams where
  fundingTxid : Hash
  preimage : Hash
  makerBtcAddress : String
  refundAddress : String
  expiry : UInt32
  amount : UInt64

def BtcClaimParams.htlc (crypto : Crypto) (params : BtcClaimParams) : BtcHtlc where
  hashLock := crypto.sha256 params.preimage.toList
  recipient := params.makerBtcAddress
  refundAddress := params.refundAddress
  expiry := params.expiry
  amount := params.amount

def buildBtcHtlcClaimWithFee (crypto : Crypto) (params : BtcClaimParams) (fee : UInt64) :
    Except String (Bytes × Hash) := do
  let htlc := params.htlc crypto
  let unsigned ← (htlc.buildClaimTx bitcoin signer params.fundingTxid params.preimage
    fee).mapError fun error => "Unable to build BTC claim tx: " ++ error
  let makerWif ← signer.deriveWifForAddress params.makerBtcAddress
  let signed ← (signer.signClaimTx htlc unsigned params.preimage makerWif).mapError
    fun error => "Unable to sign BTC claim tx: " ++ error
  pure (signer.serialize signed, signed.txid)

def buildBtcHtlcClaim (crypto : Crypto) (params : BtcClaimParams) :
    Except String (Bytes × Hash) :=
  buildBtcHtlcClaimWithFee bitcoin signer crypto params btcHtlcFeeSatoshis

end Build

end Btc

end Vtorrent
