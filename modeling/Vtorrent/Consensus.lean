import Vtorrent.Blocks

/-!
# Consensus rules

Parameters and constants, the stake reward and kernel, and the checks a block
and its transactions must pass before they are applied to the chain state.
-/

namespace Vtorrent

inductive NodeError where
  | invalidBlock (reason : String)
  | invalidTransaction (reason : String)
  | policyRejected (reason : String)
  | chain (reason : String)
  | claimAlreadyProcessed (address : String)
  | invalidClaim (reason : String)
  | atomicSwap (reason : String)
  deriving DecidableEq, Repr

/-- The `Display` text of an error. -/
def NodeError.message : NodeError → String
  | .invalidBlock reason => "Block validation failed: " ++ reason
  | .invalidTransaction reason => "Transaction validation failed: " ++ reason
  | .policyRejected reason => "Transaction rejected by relay policy: " ++ reason
  | .chain reason => "Chain error: " ++ reason
  | .claimAlreadyProcessed address =>
      "Claim already processed for address: " ++ address
  | .invalidClaim reason => "Invalid legacy claim: " ++ reason
  | .atomicSwap reason => "Atomic swap error: " ++ reason

def maxBlockSize : Nat := 1000000
def coin : UInt64 := 100000000
def minStakeAge : UInt64 := 6 * 60 * 60
def maxStakeAge : UInt64 := 6 * 24 * 60 * 60
def minStakeAmount : UInt64 := coin
def maxSupply : UInt64 := 20000000 * coin
def maxMoney : UInt64 := maxSupply

structure ConsensusParams where
  posAnnualRateBps : UInt32
  rewardAgeCap : UInt64
  maxStakeAge : UInt64
  minStakeAge : UInt64
  minStakeAmount : UInt64
  targetBlockTime : UInt64
  deriving DecidableEq

/-- `ConsensusParams::default`. -/
def ConsensusParams.initial : ConsensusParams where
  posAnnualRateBps := 500
  rewardAgeCap := Vtorrent.maxStakeAge
  maxStakeAge := Vtorrent.maxStakeAge
  minStakeAge := Vtorrent.minStakeAge
  minStakeAmount := Vtorrent.minStakeAmount
  targetBlockTime := 60

/-- The largest reward a coinstake may mint, truncated to 64 bits. -/
def computePosRewardWith (params : ConsensusParams) (stakeAmount coinAgeSeconds : UInt64) :
    UInt64 :=
  let age := min coinAgeSeconds params.rewardAgeCap
  UInt64.ofNat (stakeAmount.toNat * age.toNat * params.posAnnualRateBps.toNat /
    (10000 * 86400 * 365))

def computeStakeModifier (crypto : Crypto) (prevStakeModifier : UInt64)
    (prevBlockHash : Hash) : UInt64 :=
  UInt64.ofNat (leValue ((crypto.sha256d
    (encodeU64 prevStakeModifier ++ prevBlockHash.toList)).toList.take 8))

def stakeKernelHash (crypto : Crypto) (stakeModifier : UInt64) (utxo : Utxo)
    (timestamp : UInt32) : Hash :=
  crypto.sha256d (encodeU64 stakeModifier ++ utxo.txid.toList ++ leBytes 4 utxo.vout ++
    encodeU32 timestamp)

/-- Whether an unspent output counts toward the staked supply. -/
def isStakeableWith (params : ConsensusParams) (utxo : Utxo) : Bool :=
  if utxo.value < params.minStakeAmount then false
  else
    match scriptTypeOf utxo.scriptPubkey with
    | some .p2pkh => true
    | some (.p2cs _ _ _) => true
    | _ => false

def isStakeable (utxo : Utxo) : Bool := isStakeableWith .initial utxo

def checkStakeKernelV2 (crypto : Crypto) (stakeModifier : UInt64) (utxo : Utxo)
    (timestamp : UInt32) (totalStaked : UInt64) : Bool :=
  if totalStaked == 0 then false
  else
    let kernelValue :=
      leValue ((stakeKernelHash crypto stakeModifier utxo timestamp).toList.take 4)
    decide (kernelValue * totalStaked.toNat ≤ utxo.value.toNat * 2 ^ 32)

def isCoinstakeMarker (tx : Transaction) (index : Nat) (output : TxOutput) : Bool :=
  tx.isCoinstake && index == 0 && output.value == 0 && output.scriptPubkey.isEmpty

def validateOutput (tx : Transaction) (index : Nat) (output : TxOutput) :
    Except NodeError Unit := do
  rejectIf (output.value == 0 && !isCoinstakeMarker tx index output)
    (NodeError.invalidTransaction "Output value cannot be zero")
  rejectIf (output.value > maxMoney)
    (NodeError.invalidTransaction ("Output value " ++ toString output.value ++
      " exceeds MAX_MONEY " ++ toString maxMoney))

def validateOutputs (tx : Transaction) : Nat → List TxOutput → Except NodeError Unit
  | _, [] => pure ()
  | index, output :: outputs => do
      validateOutput tx index output
      validateOutputs tx (index + 1) outputs

/-- No output reference may be spent twice by one transaction. -/
def rejectDuplicateInputs : List OutPoint → List TxInput → Except NodeError Unit
  | _, [] => pure ()
  | seen, input :: inputs => do
      rejectIf (seen.contains input.outPoint)
        (NodeError.invalidTransaction ("Duplicate input " ++
          hexEncode input.prevTxid.toList ++ ":" ++ toString input.prevVout))
      rejectDuplicateInputs (input.outPoint :: seen) inputs

/-- The checks on a transaction that do not need the chain state. -/
def validateTransaction (tx : Transaction) : Except NodeError Unit := do
  rejectIf tx.outputs.isEmpty
    (NodeError.invalidTransaction "Transaction has no outputs")
  validateOutputs tx 0 tx.outputs
  match tx.txType with
  | .legacyClaim => do
      rejectIf tx.claimAddress.isNone (NodeError.invalidClaim "Missing claim address")
      rejectIf tx.claimSignature.isNone
        (NodeError.invalidClaim "Missing claim signature")
      rejectIf (!tx.inputs.isEmpty)
        (NodeError.invalidClaim "Legacy claim must not have transaction inputs")
  | .coinstake =>
      rejectIf (tx.inputs.length != 1)
        (NodeError.invalidTransaction ("Coinstake must have exactly one input, got " ++
          toString tx.inputs.length))
  | .coinbase => pure ()
  | _ => do
      rejectIf tx.inputs.isEmpty
        (NodeError.invalidTransaction "Transaction has no inputs")
      rejectDuplicateInputs [] tx.inputs

def validateTransactions : List Transaction → Except NodeError Unit
  | [] => pure ()
  | tx :: txs => do
      validateTransaction tx
      validateTransactions txs

/-- What a block is checked against: its parent's height and header fields. -/
structure ParentView where
  height : Nat
  timestamp : UInt32
  bits : UInt32
  stakeModifier : UInt64
  hash : Hash

def isBootstrap (prevHeight : Nat) (block : Block) : Bool :=
  match block.transactions with
  | [tx] => prevHeight == 0 && tx.isLegacyClaim
  | _ => false

def validateFirstTransaction (block : Block) (prevHeight : Nat) (allowPow : Bool) :
    Except NodeError Unit :=
  let firstType := block.transactions.head?.map Transaction.txType
  if block.header.isPos then
    rejectIf (firstType != some .coinstake && !isBootstrap prevHeight block)
      (NodeError.invalidBlock "PoS block must begin with a coinstake transaction")
  else do
    rejectIf (!allowPow)
      (NodeError.invalidBlock "Proof-of-Work blocks are not permitted")
    rejectIf (firstType != some .coinbase)
      (NodeError.invalidBlock "PoW test block must begin with a coinbase transaction")

/-- `now.saturating_add(7200)`, the latest acceptable timestamp. -/
def latestTimestamp (now : UInt32) : Nat :=
  min (now.toNat + 7200) (2 ^ 32 - 1)

def validateBlockInner (crypto : Crypto) (now : UInt32) (block : Block)
    (parent : ParentView) (allowPow : Bool) : Except NodeError Unit := do
  rejectIf block.transactions.isEmpty
    (NodeError.invalidBlock "Block has no transactions")
  rejectIf (block.encode.length > maxBlockSize)
    (NodeError.invalidBlock ("Block size " ++ toString block.encode.length ++
      " exceeds maximum " ++ toString maxBlockSize))
  rejectIf (block.height.toNat != parent.height + 1)
    (NodeError.invalidBlock ("Block height " ++ toString block.height ++
      " does not follow parent height " ++ toString parent.height))
  rejectIf (block.header.bits != parent.bits)
    (NodeError.invalidBlock ("Block difficulty " ++ toString block.header.bits ++
      " does not match parent difficulty " ++ toString parent.bits))
  let expectedModifier := computeStakeModifier crypto parent.stakeModifier parent.hash
  rejectIf (block.header.stakeModifier != expectedModifier)
    (NodeError.invalidBlock ("Stake modifier " ++ toString block.header.stakeModifier ++
      " does not match expected " ++ toString expectedModifier))
  validateFirstTransaction block parent.height allowPow
  rejectIf (block.transactions.tail.any fun tx => tx.isCoinbase || tx.isCoinstake)
    (NodeError.invalidBlock
      "Block contains more than one coinbase/coinstake transaction")
  rejectIf (block.header.timestamp.toNat > latestTimestamp now)
    (NodeError.invalidBlock ("Block timestamp " ++ toString block.header.timestamp ++
      " is too far in the future (now: " ++ toString now ++ ")"))
  rejectIf (block.header.timestamp ≤ parent.timestamp)
    (NodeError.invalidBlock "Block timestamp must be greater than previous block")
  rejectIf (block.computeMerkleRoot crypto != block.header.merkleRoot)
    (NodeError.invalidBlock "Merkle root mismatch")
  validateTransactions block.transactions

/-- `bitcoin_signed_message_hash`. -/
def bitcoinSignedMessageHash (crypto : Crypto) (magic message : String) : Hash :=
  let magicBytes := stringBytes (magic ++ "\n")
  let messageBytes := stringBytes message
  let varint :=
    if messageBytes.length < 0xfd then leBytes 1 messageBytes.length
    else if messageBytes.length ≤ 0xffff then 0xfd :: leBytes 2 messageBytes.length
    else 0xfe :: leBytes 4 messageBytes.length
  crypto.sha256d
    (leBytes 1 magicBytes.length ++ magicBytes ++ varint ++ messageBytes)

def claimMessageHashV2 (crypto : Crypto) (claimAddress : String)
    (outputs : List TxOutput) : Hash :=
  let described := outputs.map fun output =>
    "|" ++ toString output.value ++ ":" ++ hexEncode output.scriptPubkey
  bitcoinSignedMessageHash crypto "vTorrent Signed Message v2"
    (described.foldl (· ++ ·) claimAddress)

def pubkeyToVtorrentAddress (crypto : Crypto) (key : RecoveredKey) (compressed : Bool) :
    String :=
  crypto.addressString
    (crypto.hash160 (if compressed then key.serialize else key.serializeUncompressed)) 70

def verifyClaimSignature (crypto : Crypto) (messageHash : Hash) (claimAddress : String)
    (signature : Bytes) : Except NodeError Unit := do
  rejectIf (signature.length != 65)
    (NodeError.invalidClaim ("Expected 65-byte compact signature, got " ++
      toString signature.length))
  let flag := signature.headD 0 - 27
  let compact := signature.drop 1
  (crypto.recoverableFromCompact compact).mapError fun reason =>
    NodeError.invalidClaim ("Invalid recoverable signature: " ++ reason)
  let key ← (crypto.recoverEcdsa messageHash compact (flag &&& 3).toNat).mapError
    fun reason => NodeError.invalidClaim ("Key recovery failed: " ++ reason)
  let derivedAddress := pubkeyToVtorrentAddress crypto key (flag ≥ 4)
  rejectIf (derivedAddress != claimAddress)
    (NodeError.invalidClaim ("Address mismatch: signature recovers " ++
      derivedAddress ++ " but claim is for " ++ claimAddress))

def signatureFailure (error : NodeError) : NodeError :=
  .invalidClaim ("Signature verification failed: " ++ error.message)

def validateLegacyClaim (crypto : Crypto) (tx : Transaction) (snapshotBalance : UInt64) :
    Except NodeError Unit := do
  rejectIf (!tx.isLegacyClaim) (NodeError.invalidClaim "Not a claim transaction")
  match tx.claimAddress with
  | none => throw (NodeError.invalidClaim "Missing claim address")
  | some claimAddress => do
      rejectIf (snapshotBalance == 0)
        (NodeError.invalidClaim ("Address " ++ claimAddress ++
          " has no balance in snapshot"))
      rejectIf (tx.totalOutput != snapshotBalance)
        (NodeError.invalidClaim ("Claimed " ++ toString tx.totalOutput ++
          " but snapshot shows " ++ toString snapshotBalance ++
          " (a claim must match the snapshot balance exactly)"))
      match tx.claimSignature with
      | none => throw (NodeError.invalidClaim "Missing claim signature")
      | some signature =>
          (verifyClaimSignature crypto (claimMessageHashV2 crypto claimAddress tx.outputs)
            claimAddress signature).mapError signatureFailure

end Vtorrent
