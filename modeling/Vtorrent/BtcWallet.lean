import Vtorrent.Primitives

/-!
# The Bitcoin wallet

The wallet keeps the outputs that pay its addresses, the inputs reserved for swaps and the
contracts needed to refund them, and saves them to a file.  A scan walks over blocks in
order: it takes away what their transactions spend and records what they pay to the
wallet.  A reorganisation rolls the outputs back to the last common height.
-/

namespace Vtorrent

namespace Btc

open Std

structure TxIn where
  previousTxid : Hash
  previousVout : Nat
  witness : List Bytes

structure TxOut where
  value : Nat
  scriptPubkey : Bytes

structure Transaction where
  txid : Hash
  input : List TxIn
  output : List TxOut
  isCoinbase : Bool

/-- The functions of the `bitcoin` crate that the wallet calls, on the wallet's network. -/
structure Bitcoin where
  /-- `Txid::to_string` -/
  txidToString : Hash → String
  /-- `Txid::from_str` -/
  txidFromStr : String → Option Hash
  /-- The script of an address that `Address::from_str` accepts. -/
  addressScript : String → Option Bytes
  /-- `address_hash160`, with the text of its error. -/
  addressHash160 : String → Except String (ByteVector 20)
  /-- `Address::p2wsh` of a witness script, as text. -/
  p2wshAddress : Bytes → String
  /-- `Sha256::hash` -/
  sha256 : Bytes → Hash
  /-- `consensus::deserialize` of a transaction, with the text of its error. -/
  deserialize : Bytes → Except String Transaction

inductive BtcError where
  | bitcoin (reason : String)
  | invalidAddress (reason : String)
  | notSynced
  | sync (reason : String)
deriving DecidableEq

def BtcError.message : BtcError → String
  | .bitcoin reason => "Bitcoin error: " ++ reason
  | .invalidAddress reason => "Invalid address: " ++ reason
  | .notSynced => "Not synced"
  | .sync reason => "Sync error: " ++ reason

/-- A spendable output owned by the wallet. -/
structure Utxo where
  txid : String
  vout : Nat
  value : Nat
  address : String
  height : Nat
deriving DecidableEq

def Utxo.outpoint (utxo : Utxo) : String × Nat := (utxo.txid, utxo.vout)

/-- Contract terms needed to recover a refund after a restart. -/
structure SwapContract where
  orderId : String
  fundingTxid : String
  hashLock : Hash
  recipient : String
  refundAddress : String
  expiry : UInt32
  amount : UInt64
  refundRaw : Option Bytes
  inputTxid : Option String
  inputVout : Option Nat

structure UtxoSet where
  utxos : List Utxo
  reserved : Finset (String × Nat)
  reservedUtxos : List Utxo
  spentReserved : Finset (String × Nat)
  pendingSwapTransactions : ExtTreeMap String Bytes
  swapContracts : ExtTreeMap String SwapContract
  nextIndex : Nat
  lastScannedHeight : Nat
  rescanRequired : Bool

namespace UtxoSet

def new : UtxoSet := ⟨[], ∅, [], ∅, ∅, ∅, 0, 0, false⟩

def add (set : UtxoSet) (utxo : Utxo) : UtxoSet :=
  if utxo.outpoint ∈ set.reserved then set
  else if set.utxos.any fun held => decide (held.outpoint = utxo.outpoint) then set
  else { set with utxos := set.utxos ++ [utxo] }

def remove (set : UtxoSet) (outpoint : String × Nat) : UtxoSet :=
  { set with utxos := set.utxos.filter fun held => decide (held.outpoint ≠ outpoint) }

def clearChainUtxos (set : UtxoSet) : UtxoSet := { set with utxos := [] }

def rollbackAbove (set : UtxoSet) (height : Nat) : UtxoSet :=
  { set with utxos := set.utxos.filter fun held => decide (held.height ≤ height) }

def reserve (set : UtxoSet) (outpoint : String × Nat) : UtxoSet :=
  { set.remove outpoint with reserved := insert outpoint set.reserved }

def forgetReservedUtxo (set : UtxoSet) (outpoint : String × Nat) : UtxoSet :=
  { set with reservedUtxos :=
      set.reservedUtxos.filter fun held => decide (held.outpoint ≠ outpoint) }

/-- Reserve a known output and keep its details. -/
def reserveUtxo (set : UtxoSet) (utxo : Utxo) : UtxoSet :=
  let reserved := (set.reserve utxo.outpoint).forgetReservedUtxo utxo.outpoint
  { reserved with reservedUtxos := reserved.reservedUtxos ++ [utxo] }

def noteSpend (set : UtxoSet) (outpoint : String × Nat) : UtxoSet :=
  if outpoint ∈ set.reserved then
    { set.forgetReservedUtxo outpoint with
      reserved := set.reserved.erase outpoint
      spentReserved := insert outpoint set.spentReserved }
  else set

def wasReservedSpent (set : UtxoSet) (outpoint : String × Nat) : Bool :=
  decide (outpoint ∈ set.spentReserved)

def clearSpentReserved (set : UtxoSet) (outpoint : String × Nat) : UtxoSet :=
  { set with spentReserved := set.spentReserved.erase outpoint }

def release (set : UtxoSet) (outpoint : String × Nat) : Bool × UtxoSet :=
  (decide (outpoint ∈ set.reserved),
    { set.forgetReservedUtxo outpoint with reserved := set.reserved.erase outpoint })

def removeSwapContract (set : UtxoSet) (orderId : String) : UtxoSet :=
  match set.swapContracts[orderId]? with
  | none => set
  | some contract =>
      { set with
        swapContracts := set.swapContracts.erase orderId
        pendingSwapTransactions := set.pendingSwapTransactions.erase contract.fundingTxid }

def recordSwapTransaction (set : UtxoSet) (txid : String) (raw : Bytes) : UtxoSet :=
  { set with pendingSwapTransactions := set.pendingSwapTransactions.insert txid raw }

def recordSwapContract (set : UtxoSet) (contract : SwapContract) : UtxoSet :=
  { set with swapContracts := set.swapContracts.insert contract.orderId contract }

def total (set : UtxoSet) : Nat := (set.utxos.map Utxo.value).sum

end UtxoSet

/-! ## Scanning -/

section Scan

variable (bitcoin : Bitcoin) (addresses : List String)

def TxIn.outpoint (input : TxIn) : String × Nat :=
  (bitcoin.txidToString input.previousTxid, input.previousVout)

/-- Take an output away that a transaction spends. -/
def spendInput (set : UtxoSet) (input : TxIn) : UtxoSet :=
  (set.noteSpend (input.outpoint bitcoin)).remove (input.outpoint bitcoin)

def recordOutput (tx : Transaction) (height : Nat) (set : UtxoSet) (output : TxOut × Nat) :
    UtxoSet :=
  addresses.foldl (fun set address =>
    if bitcoin.addressScript address = some output.1.scriptPubkey then
      set.add ⟨bitcoin.txidToString tx.txid, output.2, output.1.value, address, height⟩
    else set) set

/-- Take away what a transaction spends and record what it pays to the wallet. -/
def recordMatchingOutputs (height : Nat) (set : UtxoSet) (tx : Transaction) : UtxoSet :=
  tx.output.zipIdx.foldl (recordOutput bitcoin addresses tx height)
    (tx.input.foldl (spendInput bitcoin) set)

def scanBlocks (blocks : List (List Transaction × Nat)) (set : UtxoSet) : UtxoSet :=
  blocks.foldl (fun set block =>
    block.1.foldl (recordMatchingOutputs bitcoin addresses block.2) set) set

end Scan

/-! ## The wallet and its file -/

structure BtcWallet where
  utxos : UtxoSet
  /-- The content of the file, when a path is set. -/
  file : Option UtxoSet
  lastScannedHeight : Nat
  rescanOnSync : Bool
  completedScan : Option (Nat × Hash)
  synced : Bool

namespace BtcWallet

/-- Save the outputs; a failure is only logged. -/
def saveUtxos (wallet : BtcWallet) (save : Except String Unit) : BtcWallet :=
  match wallet.file, save with
  | some _, .ok _ => { wallet with file := some wallet.utxos }
  | _, _ => wallet

def persisting (wallet : BtcWallet) (save : Except String Unit) (failure : String)
    (set : UtxoSet) : Except BtcError BtcWallet :=
  match wallet.file, save with
  | none, _ => .ok { wallet with utxos := set }
  | some _, .ok _ => .ok { wallet with utxos := set, file := some set }
  | some _, .error error => .error (.bitcoin (failure ++ error))

/-- Drop what was derived from the chain above a fork, or all of it, and ask for a rescan. -/
def resetChainCacheFrom (wallet : BtcWallet) (fork : Option Nat) (save : Except String Unit) :
    BtcWallet :=
  let next := match fork with
    | some fork => min (fork + 1) (2 ^ 32 - 1)
    | none => 0
  let kept := match fork with
    | some fork => wallet.utxos.rollbackAbove fork
    | none => wallet.utxos.clearChainUtxos
  { wallet with
      utxos := { kept with lastScannedHeight := next, rescanRequired := true }
      lastScannedHeight := next
      rescanOnSync := true
      completedScan := none
      synced := false }.saveUtxos save

end BtcWallet

/-! ## Contracts -/

/-- A hash time-locked contract on the Bitcoin side. -/
structure BtcHtlc where
  hashLock : Hash
  recipient : String
  refundAddress : String
  expiry : UInt32
  amount : UInt64

/-- `Builder::push_int` of a number below `2 ^ 39`. -/
def pushInt (number : Nat) : Bytes :=
  if number = 0 then [0x00]
  else if number ≤ 16 then [UInt8.ofNat (0x50 + number)]
  else
    let width :=
      if number < 2 ^ 7 then 1 else if number < 2 ^ 15 then 2 else if number < 2 ^ 23 then 3
      else if number < 2 ^ 31 then 4 else 5
    UInt8.ofNat width :: leBytes width number

def BtcHtlc.buildScript (bitcoin : Bitcoin) (htlc : BtcHtlc) : Except BtcError Bytes := do
  let recipientHash ← (bitcoin.addressHash160 htlc.recipient).mapError .invalidAddress
  let refundHash ← (bitcoin.addressHash160 htlc.refundAddress).mapError .invalidAddress
  pure ([0x63, 0x82] ++ pushInt 32 ++ [0x88, 0xa8] ++ 0x20 :: htlc.hashLock.toList ++
    [0x88, 0x76, 0xa9] ++ 0x14 :: recipientHash.toList ++ [0x88, 0xac, 0x67] ++
    pushInt htlc.expiry.toNat ++ [0xb1, 0x75, 0x76, 0xa9] ++ 0x14 :: refundHash.toList ++
    [0x88, 0xac, 0x68])

/-- `to_p2wsh`. -/
def toP2wsh (bitcoin : Bitcoin) (script : Bytes) : Bytes :=
  0x00 :: 0x20 :: (bitcoin.sha256 script).toList

namespace BtcWallet

/-- Exclude a funding input from selection, and keep the contract, before the broadcast. -/
def reserveSwapInput (bitcoin : Bitcoin) (wallet : BtcWallet) (save : Except String Unit)
    (input : Utxo) (raw : Bytes) (orderId : String) (htlc : BtcHtlc) :
    Except BtcError BtcWallet :=
  if wallet.rescanOnSync then .error .notSynced
  else
    match bitcoin.deserialize raw with
    | .error error => .error (.bitcoin error)
    | .ok transaction =>
        if wallet.utxos.utxos.any fun held => decide (held.outpoint = input.outpoint ∧
            held.value = input.value ∧ held.address = input.address) then
          let txid := bitcoin.txidToString transaction.txid
          wallet.persisting save "Could not persist BTC input reservation: "
            (((wallet.utxos.reserveUtxo input).recordSwapTransaction txid raw).recordSwapContract
              { orderId
                fundingTxid := txid
                hashLock := htlc.hashLock
                recipient := htlc.recipient
                refundAddress := htlc.refundAddress
                expiry := htlc.expiry
                amount := htlc.amount
                refundRaw := none
                inputTxid := some input.txid
                inputVout := some input.vout })
        else .error (.bitcoin "BTC funding input is no longer available")

def releaseSwapReservation (wallet : BtcWallet) (save : Except String Unit)
    (orderId : String) : Except BtcError (Bool × BtcWallet) :=
  match wallet.utxos.swapContracts[orderId]? with
  | none => .ok (false, wallet)
  | some contract =>
      match contract.inputTxid, contract.inputVout with
      | some txid, some vout =>
          let spent := wallet.utxos.wasReservedSpent (txid, vout)
          let released := wallet.utxos.release (txid, vout)
          let set :=
            (released.2.removeSwapContract orderId).clearSpentReserved (txid, vout)
          (wallet.persisting save "Could not persist BTC reservation release: " set).map
            fun wallet => (released.1 || spent, wallet)
      | _, _ => .ok (false, wallet)

end BtcWallet

end Btc

end Vtorrent
