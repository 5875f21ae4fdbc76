import Vtorrent.GovernanceUndo
import Vtorrent.Genesis
import Vtorrent.ScriptEngine

/-!
# Applying blocks to the ledger

Applying a block spends inputs, creates outputs and keeps a journal of every
change.  A failure part-way leaves the changes in place together with the
journal, and the caller rolls the journal back.
-/

namespace Vtorrent

/-- The part of the chain state that blocks change and journals restore. -/
@[ext]
structure Ledger where
  utxoSet : UtxoSet
  claimedAddresses : Finset String
  totalSupply : UInt64
  totalStaked : UInt64
  params : ConsensusParams
  governance : GovernanceState
  deriving DecidableEq

inductive UtxoChange where
  | added (key : OutPoint)
  | removed (key : OutPoint) (utxo : Utxo)
  deriving DecidableEq

def UtxoChange.key : UtxoChange → OutPoint
  | .added key => key
  | .removed key _ => key

structure BlockJournal where
  blockHash : Hash
  height : Nat
  changes : List UtxoChange
  claimedAddresses : List String
  supplyDelta : UInt64
  stakedDelta : Int
  utxoRoot : Hash
  previousGovernance : Option GovernanceUndo
  previousParams : ConsensusParams
  previousSupply : UInt64
  previousStaked : UInt64
  deriving DecidableEq

/-- A ledger in the middle of a block, with the journal written so far. -/
structure Applying extends Ledger where
  journal : BlockJournal

/-- What applying a block reads of the rest of the chain. -/
structure BlockContext where
  blockHash : Hash
  height : Nat
  timestamp : UInt32
  parentStakeModifier : UInt64
  governanceActive : Bool
  genesisHash : Hash
  /-- The main-chain block at height one begins with a legacy claim. -/
  bootstrapped : Bool

/-- The cold-staking script that governs a spend: the output's own script, or
the redeem script revealed for a script-hash output. -/
def p2csRedeemScript (utxoScript scriptSig : Bytes) : Option Bytes :=
  match scriptTypeOf utxoScript with
  | some (.p2cs _ _ _) => some utxoScript
  | some .p2sh =>
      match Script.fromBytes scriptSig with
      | .error _ => none
      | .ok sig =>
          match sig.pushes.getLast? with
          | none => none
          | some redeem =>
              match scriptTypeOf redeem with
              | some (.p2cs _ _ _) => some redeem
              | _ => none
  | _ => none

/-- The signature stack of a cold-staking spend: the data pushes, without the
redeem script of a script-hash output. -/
def p2csSignatureStack (utxoScript : Bytes) (scriptSig : Script) : List Bytes :=
  if scriptTypeOf utxoScript = some .p2sh then scriptSig.pushes.dropLast
  else scriptSig.pushes

/-- A spend of a cold-staked output carries a signature by the spending key
and has reached the locktime. -/
def p2csColdSpendAuthorized (crypto : Crypto) (tx : Transaction) (index : Nat)
    (scriptSig : Bytes) (utxo : Utxo) : Bool :=
  match p2csRedeemScript utxo.scriptPubkey scriptSig with
  | none => false
  | some p2csScript =>
      match scriptTypeOf p2csScript, Script.fromBytes scriptSig with
      | some (.p2cs _ spendingHash locktime), .ok sigScript =>
          if tx.lockTime < locktime then false
          else
            match (p2csSignatureStack utxo.scriptPubkey sigScript).reverse with
            | _ :: pubkey :: sig :: _ =>
                (crypto.hash160 pubkey).toList == spendingHash &&
                  crypto.signatureValid (tx.sighash crypto index utxo.scriptPubkey)
                    sig pubkey
            | _ => false
      | _, _ => false

def scriptEnvOf (crypto : Crypto) (context : BlockContext) (tx : Transaction)
    (index : Nat) (input : TxInput) (utxo : Utxo) : ScriptEnv where
  txHash := tx.sighash crypto index utxo.scriptPubkey
  blockHeight := context.height
  blockTime := context.timestamp
  txLockTime := tx.lockTime
  inputSequence := input.sequence
  utxoHeight := utxo.height
  utxoTimestamp := utxo.timestamp

def scriptFailure (label : String) (error : ScriptError) : NodeError :=
  .invalidTransaction (label ++ error.message)

def verifyScripts (crypto : Crypto) (context : BlockContext) (tx : Transaction)
    (index : Nat) (input : TxInput) (utxo : Utxo) : Except NodeError Unit := do
  let scriptSig ← (Script.fromBytes input.scriptSig).mapError
    (scriptFailure "Invalid scriptSig: ")
  let scriptPubkey ← (Script.fromBytes utxo.scriptPubkey).mapError
    (scriptFailure "Invalid scriptPubKey: ")
  (Engine.execute crypto (scriptEnvOf crypto context tx index input utxo)
    scriptSig scriptPubkey).mapError
      (scriptFailure ("Script verification failed for input " ++
        hexEncode input.prevTxid.toList ++ ":" ++ toString input.prevVout ++ ": "))

/-- The checks on one spent output; legacy claims are exempt. -/
def authorizeSpend (crypto : Crypto) (context : BlockContext) (tx : Transaction)
    (index : Nat) (input : TxInput) (utxo : Utxo) : Except NodeError Unit :=
  if tx.isLegacyClaim then pure ()
  else do
    verifyScripts crypto context tx index input utxo
    rejectIf (!tx.isCoinstake &&
        (p2csRedeemScript utxo.scriptPubkey input.scriptSig).isSome &&
        !p2csColdSpendAuthorized crypto tx index input.scriptSig utxo)
      (NodeError.invalidTransaction
        "P2CS spend must be authorized by the cold spending key")

abbrev Apply := EStateM NodeError Applying

structure SpentInputs where
  totalInput : UInt64
  stakeInput : Option Utxo

def SpentInputs.none : SpentInputs := ⟨0, Option.none⟩

/-- The change of the staked supply, checked against the range of `i64`. -/
def adjustStaked (counts : Bool) (change : Int) (reason : String) : Apply Unit := do
  if counts then
    let state ← get
    match checkedI64 (state.journal.stakedDelta + change) with
    | none => throw (NodeError.invalidTransaction reason)
    | some stakedDelta =>
        set { state with journal := { state.journal with stakedDelta := stakedDelta } }
  else pure ()

def Applying.remove (state : Applying) (key : OutPoint) (utxo : Utxo) : Applying :=
  { state with
    utxoSet := state.utxoSet.erase key
    journal := { state.journal with
      changes := state.journal.changes ++ [.removed key utxo] } }

def Applying.add (state : Applying) (key : OutPoint) (utxo : Utxo) : Applying :=
  { state with
    utxoSet := state.utxoSet.insert key utxo
    journal := { state.journal with
      changes := state.journal.changes ++ [.added key] } }

def Applying.claim (state : Applying) (address : String) : Applying :=
  { state with
    claimedAddresses := insert address state.claimedAddresses
    journal := { state.journal with
      claimedAddresses := state.journal.claimedAddresses ++ [address] } }

def onGovernance (step : GovernanceState.Step Unit) : Apply Unit := fun state =>
  match step state.governance with
  | .ok _ governance => .ok () { state with governance := governance }
  | .error error governance => .error error { state with governance := governance }

section Transaction

variable (network : Network) (context : BlockContext) (tx : Transaction)

def spendUtxo (index : Nat) (input : TxInput) (utxo : Utxo) (spent : SpentInputs) :
    Apply SpentInputs := do
  modify fun state => state.remove input.outPoint utxo
  Retained.ofExcept (authorizeSpend network.crypto context tx index input utxo)
  let state ← get
  adjustStaked (isStakeableWith state.params utxo) (-asI64 utxo.value)
    "Staked-supply delta underflow"
  pure {
    totalInput := saturatingAdd spent.totalInput utxo.value
    stakeInput := if tx.isCoinstake && index == 0 then some utxo else spent.stakeInput }

/-- One input.  Only legacy claims may refer to a missing output. -/
def spendInput (index : Nat) (input : TxInput) (spent : SpentInputs) :
    Apply SpentInputs := do
  let state ← get
  rejectIf (context.governanceActive &&
      state.governance.isUtxoLocked input.outPoint context.height && !tx.isCoinstake)
    (NodeError.invalidTransaction "input is locked by a governance vote")
  match state.utxoSet[input.outPoint]? with
  | some utxo => spendUtxo network context tx index input utxo spent
  | none => do
      rejectIf (!tx.isLegacyClaim)
        (NodeError.invalidTransaction ("Input " ++ hexEncode input.prevTxid.toList ++
          ":" ++ toString input.prevVout ++ " not found in UTXO set"))
      pure spent

def spendInputs : Nat → List TxInput → SpentInputs → Apply SpentInputs
  | _, [], spent => pure spent
  | index, input :: inputs, spent => do
      let spent ← spendInput network context tx index input spent
      spendInputs (index + 1) inputs spent

def spendPhase : Apply SpentInputs :=
  if tx.isCoinbase then pure SpentInputs.none
  else spendInputs network context tx 0 tx.inputs SpentInputs.none

def createdUtxo (vout : Nat) (output : TxOutput) : Utxo where
  txid := tx.txid network.crypto
  vout := vout
  value := output.value
  scriptPubkey := output.scriptPubkey
  height := context.height
  timestamp := context.timestamp

def recordClaim : Apply Unit :=
  match tx.claimAddress with
  | none =>
      if context.height = 0 then
        rejectIf tx.claimSignature.isSome
          (NodeError.invalidTransaction
            "Genesis distribution must not carry a claim signature")
      else throw (NodeError.invalidTransaction "Legacy claim is missing its address")
  | some address => do
      let state ← get
      rejectIf (decide (address ∈ state.claimedAddresses))
        (NodeError.claimAlreadyProcessed address)
      Retained.ofExcept ((validateLegacyClaim network.crypto tx
        (network.getLegacyBalance address)).mapError fun error =>
          NodeError.invalidTransaction ("Invalid legacy claim: " ++ error.message))
      modify fun state => state.claim address

def checkBootstrapClaim : Except NodeError Unit :=
  rejectIf (context.height == 1 &&
      !((tx.outputs.mapIdx (createdUtxo network context tx)).any isStakeable))
    (NodeError.invalidTransaction
      "Bootstrap claim must create a stakeable (P2PKH >= MIN_STAKE_AMOUNT) output")

def claimPhase : Apply Unit :=
  if tx.isLegacyClaim then do
    recordClaim network context tx
    Retained.ofExcept (checkBootstrapClaim network context tx)
  else pure ()

/-- One output, unless it is a data carrier. -/
def createOutput (vout : Nat) (output : TxOutput) : Apply Unit :=
  if isUtxoEligible output tx context.height then do
    let utxo := createdUtxo network context tx vout output
    let state ← get
    adjustStaked (isStakeableWith state.params utxo) (asI64 output.value)
      "Staked-supply delta overflow"
    modify fun state => state.add ⟨utxo.txid, vout⟩ utxo
  else pure ()

def createOutputs : Nat → List TxOutput → Apply Unit
  | _, [] => pure ()
  | vout, output :: outputs => do
      createOutput network context tx vout output
      createOutputs (vout + 1) outputs

def checkConservation (totalInput : UInt64) : Except NodeError Unit :=
  rejectIf (!tx.isCoinbase && !tx.isCoinstake && !tx.isLegacyClaim &&
      tx.totalOutput > totalInput)
    (NodeError.invalidTransaction ("Transaction creates value: inputs " ++
      toString totalInput ++ " < outputs " ++ toString tx.totalOutput))

def relockedValue (stakedScript : Bytes) (outputs : List TxOutput) : UInt64 :=
  saturatingSum ((outputs.filter fun output =>
    decide (output.value > 0 ∧ output.scriptPubkey = stakedScript)).map TxOutput.value)

/-- A coinstake of a delegated output pays everything back to the same script. -/
def checkRelock (staked : Utxo) : Except NodeError Unit :=
  match p2csRedeemScript staked.scriptPubkey
      ((tx.inputs.head?.map TxInput.scriptSig).getD []) with
  | none => pure ()
  | some p2csScript => do
      let redirected :=
        p2csRedirectedValueWithRedeem staked.scriptPubkey p2csScript tx.outputs
      rejectIf (redirected > 0)
        (NodeError.invalidTransaction ("P2CS coinstake must re-lock all value to the " ++
          "same cold-stake script; " ++ toString redirected ++
          " satoshis were redirected elsewhere"))
      let relocked := relockedValue staked.scriptPubkey tx.outputs
      rejectIf (relocked < staked.value)
        (NodeError.invalidTransaction ("P2CS coinstake re-locks " ++ toString relocked ++
          " satoshis below the staked value " ++ toString staked.value))

def checkStake (params : ConsensusParams) (totalStaked : UInt64) (staked : Utxo) :
    Except NodeError Unit := do
  rejectIf (!isStakeableWith params staked)
    (NodeError.invalidTransaction "Coinstake input is not a stakeable output")
  rejectIf (staked.value < params.minStakeAmount)
    (NodeError.invalidTransaction ("Stake value " ++ toString staked.value ++
      " is below minimum " ++ toString params.minStakeAmount))
  let coinAge := UInt64.ofNat (context.timestamp.toNat - staked.timestamp.toNat)
  let isBootstrapUtxo :=
    context.height == 2 && staked.height == 1 && context.bootstrapped
  rejectIf (!(isBootstrapUtxo || coinAge ≥ params.minStakeAge) ||
      coinAge > params.maxStakeAge)
    (NodeError.invalidTransaction ("Stake age " ++ toString coinAge ++
      " is outside the allowed range " ++ toString params.minStakeAge ++ "..=" ++
      toString params.maxStakeAge))
  rejectIf (!checkStakeKernelV2 network.crypto context.parentStakeModifier staked
      context.timestamp totalStaked)
    (NodeError.invalidTransaction
      "Coinstake kernel hash does not meet the stake target")
  let maxReward := computePosRewardWith params staked.value coinAge
  let minted := saturatingSub tx.totalOutput staked.value
  rejectIf (minted > maxReward)
    (NodeError.invalidTransaction ("Coinstake mints " ++ toString minted ++
      " above the allowed reward " ++ toString maxReward))
  checkRelock tx staked

def checkCoinstake (params : ConsensusParams) (totalStaked : UInt64)
    (stakeInput : Option Utxo) : Except NodeError Unit :=
  if tx.isCoinstake then
    match stakeInput with
    | none =>
        throw (NodeError.invalidTransaction "Coinstake must spend a stake input")
    | some staked => checkStake network context tx params totalStaked staked
  else pure ()

def transferLock (stakeInput : Option Utxo) : Apply Unit :=
  match context.governanceActive, stakeInput with
  | true, some staked => onGovernance
      (GovernanceState.transferStakeLock network.crypto tx staked context.height)
  | _, _ => pure ()

/-- The net supply change of a transaction.  Claims are funded by the snapshot
already counted at genesis. -/
def computeSupplyDelta (totalInput totalOutput : UInt64) : UInt64 :=
  if tx.isLegacyClaim && tx.claimAddress.isSome then 0
  else saturatingSub totalOutput totalInput

def Applying.mint (state : Applying) (supplyDelta : UInt64) : Applying :=
  { state with
    journal := { state.journal with
      supplyDelta := saturatingAdd state.journal.supplyDelta supplyDelta } }

def applyTransactionJournaled : Apply Unit := do
  let spent ← spendPhase network context tx
  claimPhase network context tx
  createOutputs network context tx 0 tx.outputs
  Retained.ofExcept (checkConservation tx spent.totalInput)
  let state ← get
  Retained.ofExcept
    (checkCoinstake network context tx state.params state.totalStaked spent.stakeInput)
  transferLock network context tx spent.stakeInput
  modify fun state => state.mint (computeSupplyDelta tx spent.totalInput tx.totalOutput)

def governancePhase : Apply Unit := fun state =>
  if context.governanceActive then
    onGovernance (GovernanceState.processTransaction network.crypto
      { height := context.height
        timestamp := context.timestamp
        utxos := state.utxoSet
        params := state.params
        totalStaked := state.totalStaked
        genesis := context.genesisHash } tx) state
  else .ok () state

def applyTransaction : Apply Unit := do
  governancePhase network context tx
  applyTransactionJournaled network context tx

end Transaction

section Block

variable (network : Network) (context : BlockContext)

def applyTransactions : List Transaction → Apply Unit
  | [] => pure ()
  | tx :: txs => do
      applyTransaction network context tx
      applyTransactions txs

def stakeableTotal (params : ConsensusParams) (utxos : UtxoSet) : UInt64 :=
  (((FiniteMap.values utxos).filter (isStakeableWith params)).map Utxo.value).sum

/-- Let governance start the block; a changed minimum stake recounts the staked
supply. -/
def beginGovernanceBlock : Apply Unit :=
  modify fun state =>
    if context.governanceActive then
      let (governance, params) := state.governance.beginBlock context.height
        state.params state.utxoSet context.timestamp
      { state with
        governance := governance
        params := params
        totalStaked :=
          if params.minStakeAmount ≠ state.journal.previousParams.minStakeAmount then
            stakeableTotal params state.utxoSet
          else state.totalStaked }
    else state

def addStaked (totalStaked : UInt64) (stakedDelta : Int) : UInt64 :=
  if stakedDelta ≥ 0 then saturatingAdd totalStaked (UInt64.ofNat stakedDelta.toNat)
  else saturatingSub totalStaked (UInt64.ofNat stakedDelta.natAbs)

def Applying.commit (crypto : Crypto) (state : Applying) : Applying :=
  { state with
    totalSupply := saturatingAdd state.totalSupply state.journal.supplyDelta
    totalStaked := addStaked state.totalStaked state.journal.stakedDelta
    journal := { state.journal with
      utxoRoot := recomputeUtxoRoot crypto state.utxoSet } }

def checkSupply (totalSupply supplyDelta : UInt64) : Except NodeError Unit :=
  rejectIf (saturatingAdd totalSupply supplyDelta > maxSupply)
    (NodeError.invalidBlock ("Block would exceed maximum supply: " ++
      toString totalSupply ++ " + " ++ toString supplyDelta ++ " > " ++
      toString maxSupply))

def applyBlock (transactions : List Transaction) : Apply Unit := do
  beginGovernanceBlock context
  applyTransactions network context transactions
  let state ← get
  Retained.ofExcept (checkSupply state.totalSupply state.journal.supplyDelta)
  modify fun state => state.commit network.crypto

end Block

def newJournal (ledger : Ledger) (blockHash : Hash) (height : Nat) : BlockJournal where
  blockHash := blockHash
  height := height
  changes := []
  claimedAddresses := []
  supplyDelta := 0
  stakedDelta := 0
  utxoRoot := zeroHash
  previousGovernance := none
  previousParams := ledger.params
  previousSupply := ledger.totalSupply
  previousStaked := ledger.totalStaked

def undoChange (utxos : UtxoSet) : UtxoChange → UtxoSet
  | .added key => utxos.erase key
  | .removed key utxo => utxos.insert key utxo

def undoChanges (utxos : UtxoSet) (changes : List UtxoChange) : UtxoSet :=
  changes.reverse.foldl undoChange utxos

def undoClaims (claimed : Finset String) (addresses : List String) : Finset String :=
  addresses.reverse.foldl Finset.erase claimed

/-- `rollback_journal`. -/
def rollbackJournal (ledger : Ledger) (journal : BlockJournal) : Ledger where
  utxoSet := undoChanges ledger.utxoSet journal.changes
  claimedAddresses := undoClaims ledger.claimedAddresses journal.claimedAddresses
  totalSupply := journal.previousSupply
  totalStaked := journal.previousStaked
  params := journal.previousParams
  governance :=
    match journal.previousGovernance with
    | some undo => ledger.governance.restoreUndo undo
    | none => ledger.governance

def finishJournal (context : BlockContext) (before : Ledger) (state : Applying) :
    BlockJournal :=
  { state.journal with
    previousGovernance :=
      if context.governanceActive then
        some (state.governance.undoSince before.governance)
      else none }

def Applying.start (context : BlockContext) (before : Ledger) : Applying where
  toLedger := before
  journal := newJournal before context.blockHash context.height

/-- Apply a block, or leave the ledger as it was when rolled back. -/
def applyBlockJournaled (network : Network) (context : BlockContext)
    (transactions : List Transaction) : EStateM NodeError Ledger BlockJournal :=
  fun before =>
    match applyBlock network context transactions (.start context before) with
    | .ok _ state => .ok (finishJournal context before state) state.toLedger
    | .error error state =>
        .error error (rollbackJournal state.toLedger (finishJournal context before state))

end Vtorrent
