import Vtorrent.Chain

/-!
# Questions to the chain

What the wallet side asks the chain about a transaction: whether it is confirmed, which fee
it pays, and whether its scripts accept the current unspent outputs.  Bodies that were
pruned from memory are not read back from disk here.
-/

namespace Vtorrent

namespace Chain

def getUtxo (chain : Chain) (txid : Hash) (vout : Nat) : Option Utxo :=
  chain.utxoSet[(⟨txid, vout⟩ : OutPoint)]?

def inputTotal (chain : Chain) : List TxInput → UInt64 → Option UInt64
  | [], total => some total
  | input :: inputs, total => do
      let utxo ← chain.utxoSet[input.outPoint]?
      inputTotal chain inputs (saturatingAdd total utxo.value)

def computeTxFee (chain : Chain) (tx : Transaction) : Option UInt64 :=
  if tx.isCoinbase || tx.isCoinstake || tx.isLegacyClaim then some 0
  else do
    let totalInput ← chain.inputTotal tx.inputs 0
    if tx.totalOutput ≤ totalInput then some (totalInput - tx.totalOutput) else none

section Scripts

variable (network : Network) (chain : Chain) (tx : Transaction) (height : Nat)
  (timestamp : UInt32)

/-- Run the scripts of one input against the output that it spends. -/
def verifyInputScripts (index : Nat) (input : TxInput) : Except NodeError Unit :=
  match chain.utxoSet[input.outPoint]? with
  | none => throw (NodeError.invalidTransaction ("input " ++ hexEncode input.prevTxid.toList ++
      ":" ++ toString input.prevVout ++ " not in UTXO set"))
  | some utxo => do
      let scriptSig ← (Script.fromBytes input.scriptSig).mapError
        (scriptFailure "Invalid scriptSig: ")
      let scriptPubkey ← (Script.fromBytes utxo.scriptPubkey).mapError
        (scriptFailure "Invalid scriptPubkey: ")
      let env : ScriptEnv :=
        { txHash := tx.sighash network.crypto index utxo.scriptPubkey
          blockHeight := height
          blockTime := timestamp
          txLockTime := tx.lockTime
          inputSequence := input.sequence
          utxoHeight := utxo.height
          utxoTimestamp := utxo.timestamp }
      (Engine.execute network.crypto env scriptSig scriptPubkey).mapError
        (scriptFailure ("Script verification failed for input " ++
          hexEncode input.prevTxid.toList ++ ":" ++ toString input.prevVout ++ ": "))

def verifyInputs : Nat → List TxInput → Except NodeError Unit
  | _, [] => pure ()
  | index, input :: inputs => do
      verifyInputScripts network chain tx height timestamp index input
      verifyInputs (index + 1) inputs

def verifyTxScripts : Except NodeError Unit :=
  if tx.isLegacyClaim then
    match tx.claimAddress with
    | none => throw (NodeError.invalidClaim "Legacy claim is missing its address")
    | some address => do
        rejectIf (decide (address ∈ chain.claimedAddresses))
          (NodeError.claimAlreadyProcessed address)
        validateLegacyClaim network.crypto tx (network.getLegacyBalance address)
  else if tx.isCoinbase || tx.isCoinstake then pure ()
  else verifyInputs network chain tx height timestamp 0 tx.inputs

end Scripts

end Chain

end Vtorrent
