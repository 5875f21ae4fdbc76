import Mathlib
import Vtorrent.ChainQueries

/-!
# The mempool

Unconfirmed transactions with the fees they pay.  Next to the entries the pool keeps two
indexes, from spent outputs and from claimed addresses to the entry that uses them, a limit
on the number of entries, a budget of bytes and a floor for the fee rate.  A transaction
may replace the entries it conflicts with, and a full pool makes room by evicting the
entries with the lowest fee rate, both together with what descends from them.

Sizes, rates and totals are natural numbers: the source adds them in 64 bits and aborts on
an overflow.
-/

namespace Vtorrent

open Std

/-- Minimum fee rate increase for a replacement, in satoshis per byte. -/
def minRbfFeeBump : Nat := 1

/-- Minimum absolute fee of a transaction that is not a claim. -/
def minRelayFee : UInt64 := 1000

def dustSatoshis : UInt64 := 546

/-- Maximum age of an entry in seconds. -/
def staleTxTtlSecs : Nat := 48 * 60 * 60

namespace Transaction

def signalsRbf (tx : Transaction) : Bool :=
  tx.inputs.any fun input => input.sequence < 0xFFFFFFFE

def pendingClaim (tx : Transaction) : Option String :=
  if tx.isLegacyClaim then tx.claimAddress else none

end Transaction

def feeRateOf (feeSats : UInt64) (sizeBytes : Nat) : Nat :=
  if sizeBytes > 0 then feeSats.toNat / sizeBytes else 0

structure MempoolEntry where
  tx : Transaction
  feeSats : UInt64
  sizeBytes : Nat
  receivedAt : Nat
  rbf : Bool
  deriving DecidableEq

def MempoolEntry.feeRate (entry : MempoolEntry) : Nat :=
  feeRateOf entry.feeSats entry.sizeBytes

@[ext]
structure Mempool where
  entries : ExtTreeMap Hash MempoolEntry
  pendingClaims : ExtTreeMap String Hash
  spentInputs : ExtTreeMap OutPoint Hash
  maxSize : Nat
  maxBytes : Nat
  minFeeRate : Nat
  deriving DecidableEq

/-- The byte-wise order of transaction ids. -/
def txidRank (txid : Hash) : List Nat := txid.toList.map UInt8.toNat

namespace Mempool

/-- A fallible update of the pool. -/
abbrev Step := EStateM NodeError Mempool

def withByteLimit (maxSize maxBytes : Nat) : Mempool where
  entries := ∅
  pendingClaims := ∅
  spentInputs := ∅
  maxSize := maxSize
  maxBytes := maxBytes
  minFeeRate := 1

def totalBytes (pool : Mempool) : Nat :=
  FiniteMap.total MempoolEntry.sizeBytes pool.entries

def totalFees (pool : Mempool) : Nat :=
  FiniteMap.total (fun entry => entry.feeSats.toNat) pool.entries

section Removal

/-- Forget the address of a removed claim if it is still recorded for that claim. -/
def dropClaim (txid : Hash) (claim : Option String) (pending : ExtTreeMap String Hash) :
    ExtTreeMap String Hash :=
  match claim with
  | some address =>
      if pending[address]? = some txid then pending.erase address else pending
  | none => pending

def removeEntry (pool : Mempool) (txid : Hash) : Mempool :=
  match pool.entries[txid]? with
  | none => pool
  | some entry =>
      { pool with
        entries := pool.entries.erase txid
        spentInputs := entry.tx.inputs.foldl
          (fun index input => index.erase input.outPoint) pool.spentInputs
        pendingClaims := dropClaim txid entry.tx.pendingClaim pool.pendingClaims }

def removeTransaction (pool : Mempool) (txid : Hash) : Mempool := pool.removeEntry txid

def removeEntries (pool : Mempool) (txids : List Hash) : Mempool :=
  txids.foldl removeEntry pool

def ownersOf (pool : Mempool) (condition : OutPoint → Bool) : List Hash :=
  (pool.spentInputs.toList.filter fun spent => condition spent.1).map Prod.snd

/-- Remove the entries that spend outputs of the frontier, then those that spend their
outputs, and so on.  Every round removes an entry. -/
def evictDescendantsWithin : Nat → List Hash → Mempool → Mempool
  | 0, _, pool => pool
  | fuel + 1, frontier, pool =>
      let doomed := pool.ownersOf fun outPoint => frontier.contains outPoint.txid
      if doomed.isEmpty then pool
      else evictDescendantsWithin fuel doomed (pool.removeEntries doomed)

def evictDescendants (pool : Mempool) (frontier : List Hash) : Mempool :=
  evictDescendantsWithin pool.entries.size frontier pool

end Removal

section Admission

variable (crypto : Crypto) (tx : Transaction) (feeSats : UInt64)

/-- Relay policy on outputs that cost more to spend than they are worth; claims and data
carriers are exempt. -/
def checkDust : Except NodeError Unit :=
  if tx.isLegacyClaim then pure ()
  else
    tx.outputs.forM fun output =>
      rejectIf (output.value < dustSatoshis &&
          decide (scriptTypeOf output.scriptPubkey ≠ some .opReturn))
        (NodeError.policyRejected ("Output value " ++ toString output.value ++
          " sat is below the dust threshold " ++ toString dustSatoshis ++ " sat"))

def checkClaim (pool : Mempool) : Except NodeError Unit :=
  match tx.pendingClaim with
  | none => pure ()
  | some address =>
      match pool.pendingClaims[address]? with
      | none => pure ()
      | some existing =>
          rejectIf (decide (existing ≠ tx.txid crypto))
            (NodeError.policyRejected ("A claim for " ++ address ++
              " is already pending (" ++ hexEncode existing.toList ++ ")"))

/-- The fee and the fee rate a transaction has to pay; claims are exempt. -/
def checkFee (pool : Mempool) : Except NodeError Unit := do
  let feeRate := feeRateOf feeSats tx.serializedSize
  rejectIf (!tx.isLegacyClaim && decide (feeSats < minRelayFee))
    (NodeError.policyRejected ("Fee too low: " ++ toString feeSats ++ " sat < " ++
      toString minRelayFee ++ " sat minimum"))
  rejectIf (!tx.isLegacyClaim && decide (feeRate < pool.minFeeRate))
    (NodeError.policyRejected ("Fee rate too low: " ++ toString feeRate ++
      " sat/byte < " ++ toString pool.minFeeRate ++ " sat/byte minimum"))

def checkPolicy (pool : Mempool) : Except NodeError Unit := do
  validateTransaction tx
  checkDust tx
  checkClaim crypto tx pool
  checkFee tx feeSats pool

def noteConflict (pool : Mempool) (conflicts : List Hash) (input : TxInput) : List Hash :=
  match pool.spentInputs[input.outPoint]? with
  | some txid => if conflicts.contains txid then conflicts else conflicts ++ [txid]
  | none => conflicts

def findConflicts (pool : Mempool) : List Hash := tx.inputs.foldl pool.noteConflict []

def checkConflict (feeRate : Nat) (conflict : MempoolEntry) : Except NodeError Unit := do
  rejectIf (feeRate < min (conflict.feeRate + minRbfFeeBump) (2 ^ 64 - 1))
    (NodeError.chain ("RBF replacement fee rate " ++ toString feeRate ++
      " sat/byte must exceed " ++ toString conflict.feeRate ++ " + " ++
      toString minRbfFeeBump ++ " sat/byte"))
  rejectIf (feeSats < conflict.feeSats)
    (NodeError.chain ("RBF replacement absolute fee " ++ toString feeSats ++
      " sat must be >= " ++ toString conflict.feeSats ++ " sat"))

def checkConflicts (pool : Mempool) (conflicts : List Hash) : Except NodeError Unit :=
  conflicts.forM fun txid => do
    let conflict ← required (NodeError.chain "Conflict entry missing") pool.entries[txid]?
    checkConflict feeSats (feeRateOf feeSats tx.serializedSize) conflict

def checkReplacement (pool : Mempool) : Except NodeError Unit :=
  let conflicts := pool.findConflicts tx
  if conflicts.isEmpty then pure ()
  else do
    rejectIf (!tx.signalsRbf)
      (NodeError.chain "Transaction conflicts with mempool entry; signal RBF to replace")
    checkConflicts tx feeSats pool conflicts

def replace (pool : Mempool) : Mempool :=
  let conflicts := pool.findConflicts tx
  (pool.removeEntries conflicts).evictDescendants conflicts

def evictionRank (txid : Hash) (entry : MempoolEntry) : ℕ ×ₗ ℕ ×ₗ List ℕ :=
  toLex (entry.feeRate, toLex (entry.tx.serializedSize, txidRank txid))

def lowestFeeRateEntry (pool : Mempool) : Option (Hash × MempoolEntry) :=
  pool.entries.toList.argmin fun held => evictionRank held.1 held.2

def isFull (pool : Mempool) (sizeBytes : Nat) : Bool :=
  decide (pool.entries.size ≥ pool.maxSize) ||
    decide (pool.totalBytes + sizeBytes > pool.maxBytes)

def nextVictim (pool : Mempool) (sizeBytes : Nat) : Option (Hash × MempoolEntry) :=
  if pool.isFull sizeBytes then pool.lowestFeeRateEntry else none

def withFloor (pool : Mempool) (floor : Nat) : Mempool := { pool with minFeeRate := floor }

def evictVictim (pool : Mempool) (victim : Hash) (rate : Nat) : Mempool :=
  ((pool.removeEntry victim).evictDescendants [victim]).withFloor (rate + 1)

/-- Evict entries of the lowest fee rate until the transaction fits, and report the
victims.  Every round removes an entry. -/
def makeRoom (sizeBytes feeRate : Nat) : Nat → Step (List Hash)
  | 0 => pure []
  | fuel + 1 => do
      let pool ← get
      match pool.nextVictim sizeBytes with
      | none => pure []
      | some (victim, lowest) => do
          rejectIf (decide (feeRate ≤ lowest.feeRate))
            (NodeError.chain ("Mempool full; minimum fee rate is now " ++
              toString pool.minFeeRate ++ " sat/byte"))
          modify fun pool => pool.evictVictim victim lowest.feeRate
          let victims ← makeRoom sizeBytes feeRate fuel
          pure (victim :: victims)

/-- Lower the floor once the pool has drained below half of its capacity. -/
def decayFeeRate (pool : Mempool) : Mempool :=
  if pool.entries.size < pool.maxSize / 2 ∧ pool.minFeeRate > 1 then
    pool.withFloor (pool.minFeeRate - 1)
  else pool

def newEntry (now : Nat) : MempoolEntry where
  tx := tx
  feeSats := feeSats
  sizeBytes := tx.serializedSize
  receivedAt := now
  rbf := tx.signalsRbf

def recordPendingClaim (txid : Hash) (claim : Option String)
    (pending : ExtTreeMap String Hash) : ExtTreeMap String Hash :=
  match claim with
  | some address => pending.insert address txid
  | none => pending

def insertEntry (pool : Mempool) (txid : Hash) (entry : MempoolEntry) : Mempool :=
  { pool with
    entries := pool.entries.insert txid entry
    spentInputs := entry.tx.inputs.foldl
      (fun index input => index.insert input.outPoint txid) pool.spentInputs
    pendingClaims := recordPendingClaim txid entry.tx.pendingClaim pool.pendingClaims }

def admitReplaced (now : Nat) : Step (List Hash) := do
  let pool ← get
  rejectIf (decide (tx.serializedSize > pool.maxBytes))
    (NodeError.policyRejected ("Transaction size " ++ toString tx.serializedSize ++
      " bytes exceeds the mempool byte budget " ++ toString pool.maxBytes ++ " bytes"))
  let victims ← makeRoom tx.serializedSize (feeRateOf feeSats tx.serializedSize)
    (pool.entries.size + 1)
  modify fun pool =>
    pool.decayFeeRate.insertEntry (tx.txid crypto) (newEntry tx feeSats now)
  pure victims

def admitNew (now : Nat) : Step (List Hash) := do
  let pool ← get
  Retained.ofExcept (pool.checkReplacement tx feeSats)
  modify fun pool => pool.replace tx
  admitReplaced crypto tx feeSats now

/-- `add_transaction_with_fee` at a time, with the entries evicted to make room. -/
def addReportingVictims (now : Nat) : Step (List Hash) := do
  let pool ← get
  Retained.ofExcept (pool.checkPolicy crypto tx feeSats)
  if pool.entries.contains (tx.txid crypto) then pure []
  else admitNew crypto tx feeSats now

def addTransactionWithFee (now : Nat) : Step Unit := do
  let _ ← addReportingVictims crypto tx feeSats now
  pure ()

end Admission

section Chain

variable (network : Network) (chain : Chain)

/-- The time of the tip, as far as its body is in memory. -/
def tipTimestamp : UInt32 :=
  match chain.getBlockAtHeight chain.bestHeight with
  | some block => block.header.timestamp
  | none => 0

/-- Blocks require the cold spending key for spends of delegated outputs. -/
def checkColdSpends (tx : Transaction) : Nat → List TxInput → Except NodeError Unit
  | _, [] => pure ()
  | index, input :: inputs => do
      match chain.utxoSet[input.outPoint]? with
      | none => pure ()
      | some utxo =>
          rejectIf ((p2csRedeemScript utxo.scriptPubkey input.scriptSig).isSome &&
              !p2csColdSpendAuthorized network.crypto tx index input.scriptSig utxo)
            (NodeError.policyRejected
              "P2CS spend must be authorized by the cold spending key")
      checkColdSpends tx (index + 1) inputs

def checkAgainstChain (tx : Transaction) : Except NodeError UInt64 := do
  let fee ← required (NodeError.chain "Transaction inputs not found in UTXO set")
    (chain.computeTxFee tx)
  chain.verifyTxScripts network tx chain.bestHeight (tipTimestamp chain)
  if tx.isCoinstake then pure fee
  else do
    checkColdSpends network chain tx 0 tx.inputs
    pure fee

def admitWithChainFee (now : Nat) (tx : Transaction) : Step UInt64 := do
  let fee ← Retained.ofExcept (checkAgainstChain network chain tx)
  addTransactionWithFee network.crypto tx fee now
  pure fee

def handleConfirmedBlock (pool : Mempool) (confirmedTxids : List Hash)
    (spentOutpoints : List OutPoint) : Mempool :=
  let pool := pool.removeEntries confirmedTxids
  if spentOutpoints.isEmpty then pool
  else pool.removeEntries (pool.ownersOf fun outPoint => spentOutpoints.contains outPoint)

/-- An entry no longer pays the fee it was admitted with, or its scripts fail. -/
def isInvalidOn (entry : MempoolEntry) : Bool :=
  decide (chain.computeTxFee entry.tx ≠ some entry.feeSats) ||
    match chain.verifyTxScripts network entry.tx chain.bestHeight (tipTimestamp chain) with
    | .ok _ => false
    | .error _ => true

def handleReorg (now : Nat) (rolledBackTxs : List Transaction) (pool : Mempool) : Mempool :=
  let invalid := (pool.entries.toList.filter fun held =>
    isInvalidOn network chain held.2).map Prod.fst
  rolledBackTxs.foldl
    (fun pool tx => Retained.final (admitWithChainFee network chain now tx) pool)
    (pool.removeEntries invalid)

end Chain

def staleTxids (pool : Mempool) (nowSecs : Nat) : List Hash :=
  (pool.entries.toList.filter fun held =>
    decide (nowSecs - held.2.receivedAt > staleTxTtlSecs)).map Prod.fst

def evictStale (pool : Mempool) (nowSecs : Nat) : Mempool × Nat :=
  (pool.removeEntries (pool.staleTxids nowSecs), (pool.staleTxids nowSecs).length)

end Mempool

end Vtorrent
