import Vtorrent.Chain
import Vtorrent.OverlayMerge

/-!
# Building staked blocks

The staking engine puts a coinstake and pending transactions into a block.  It drops
transactions that conflict with the stake or with each other, fills the block up to the
size limit, and commits to the unspent outputs after the block without applying it.
-/

namespace Vtorrent

open Std

/-- The outputs a block removes from the unspent outputs and adds to them. -/
structure PostApply where
  removed : ExtTreeSet OutPoint
  added : UtxoSet

def PostApply.unchanged : PostApply := ⟨∅, ∅⟩

namespace PostApply

/-- An input takes back an added output, or removes an earlier one. -/
def spend (changes : PostApply) (input : TxInput) : PostApply :=
  if changes.added.contains input.outPoint then
    { changes with added := changes.added.erase input.outPoint }
  else { changes with removed := changes.removed.insert input.outPoint }

section Outputs

variable (crypto : Crypto) (height : Nat) (timestamp : UInt32)

def addOutputs (tx : Transaction) : Nat → List TxOutput → PostApply → PostApply
  | _, [], changes => changes
  | vout, output :: outputs, changes =>
      addOutputs tx (vout + 1) outputs
        (if isUtxoEligible output tx height then
          { changes with
            added := changes.added.insert ⟨tx.txid crypto, vout⟩
              { txid := tx.txid crypto
                vout := vout
                value := output.value
                scriptPubkey := output.scriptPubkey
                height := height
                timestamp := timestamp } }
        else changes)

def transact (changes : PostApply) (tx : Transaction) : PostApply :=
  addOutputs crypto height timestamp tx 0 tx.outputs (tx.inputs.foldl spend changes)

end Outputs

end PostApply

def utxoLeaves (crypto : Crypto) (utxos : UtxoSet) : List Hash :=
  (FiniteMap.values utxos).map (hashUtxo crypto)

def buildPostApplyLeaves (crypto : Crypto) (utxos : UtxoSet) (leaves : List Hash)
    (transactions : List Transaction) (height : Nat) (timestamp : UInt32) : List Hash :=
  let changes := transactions.foldl (PostApply.transact crypto height timestamp) .unchanged
  let added := changes.added.toList.map (Prod.map id (hashUtxo crypto))
  (OverlayMerge.merge (fun key => changes.removed.contains key)
    (utxos.keys.zip leaves) added).map Prod.snd

def fillBlock : Nat → List Transaction → List Transaction
  | _, [] => []
  | blockSize, tx :: txs =>
      if blockSize + tx.serializedSize > maxBlockSize then []
      else tx :: fillBlock (blockSize + tx.serializedSize) txs

def assembleBlock (crypto : Crypto) (prevHash : Hash) (prevStakeModifier : UInt64)
    (timestamp : UInt32) (coinstake : Transaction) (pending : List Transaction) : Block :=
  let transactions := coinstake :: fillBlock coinstake.serializedSize pending
  { header := {
      version := 2
      prevBlockHash := prevHash
      merkleRoot := computeMerkleRootFromTxids crypto
        (transactions.map (Transaction.txid crypto))
      utxoRoot := zeroHash
      timestamp := timestamp
      bits := genesisBits
      nonce := 0
      stakeModifier := computeStakeModifier crypto prevStakeModifier prevHash }
    transactions := transactions }

def conflicts : ExtTreeSet OutPoint → List TxInput → Bool × ExtTreeSet OutPoint
  | seen, [] => (false, seen)
  | seen, input :: inputs =>
      if seen.contains input.outPoint then (true, seen)
      else conflicts (seen.insert input.outPoint) inputs

def nonConflicting : ExtTreeSet OutPoint → List Transaction → List Transaction
  | _, [] => []
  | seen, tx :: txs =>
      match conflicts seen tx.inputs with
      | (true, seen) => nonConflicting seen txs
      | (false, seen) => tx :: nonConflicting seen txs

def buildFromKernelWithProof (crypto : Crypto) (prevHash : Hash)
    (prevStakeModifier : UInt64) (height : Nat) (timestamp : UInt32)
    (orderedUtxos : UtxoSet) (pending : List Transaction) (kernel : Utxo × Transaction) :
    Option Block :=
  let (utxo, coinstake) := kernel
  let stakedKey : OutPoint := ⟨utxo.txid, utxo.vout⟩
  if orderedUtxos[stakedKey]? = some utxo then
    let block := assembleBlock crypto prevHash prevStakeModifier timestamp coinstake
      (nonConflicting (ExtTreeSet.ofList [stakedKey]) pending)
    let leaves := buildPostApplyLeaves crypto orderedUtxos (utxoLeaves crypto orderedUtxos)
      block.transactions height timestamp
    some { block with
      header := { block.header with
        utxoRoot := computeMerkleRootFromTxids crypto leaves } }
  else none

end Vtorrent
