import Vtorrent.Consensus

/-!
# Governance state

Proposals and signed votes travel in data-carrier outputs.  A vote locks the
output that backs it until the voting window closes.  Every block records what
it changed here, as a difference between the two states.
-/

namespace Vtorrent

def proposalPrefix : Bytes := stringBytes "VTRG1"
def votePrefix : Bytes := stringBytes "VTRV1"
def signedVotePrefix : Bytes := stringBytes "VTRV2"

def lockGraceBlocks : Nat := 6

/-- `invalid`. -/
def invalidGovernance (message : String) : NodeError := .invalidTransaction message

inductive ParamId where
  | posAnnualRateBps
  | rewardAgeCap
  | minStakeAge
  | maxStakeAge
  | minStakeAmount
  | targetBlockTime
  deriving DecidableEq

namespace ParamId

def fromU8 (byte : UInt8) : Option ParamId :=
  match byte.toNat with
  | 0 => some posAnnualRateBps
  | 1 => some rewardAgeCap
  | 2 => some minStakeAge
  | 3 => some maxStakeAge
  | 4 => some minStakeAmount
  | 5 => some targetBlockTime
  | _ => none

def index : ParamId → Nat
  | posAnnualRateBps => 0
  | rewardAgeCap => 1
  | minStakeAge => 2
  | maxStakeAge => 3
  | minStakeAmount => 4
  | targetBlockTime => 5

def allowed (param : ParamId) (value : UInt64) : Bool :=
  match param with
  | posAnnualRateBps => 1 ≤ value && value ≤ 1000
  | rewardAgeCap | minStakeAge | maxStakeAge => 60 ≤ value && value ≤ 365 * 86400
  | minStakeAmount => coin ≤ value && value ≤ maxSupply
  | targetBlockTime => 30 ≤ value && value ≤ 600

def set (param : ParamId) (params : ConsensusParams) (value : UInt64) : ConsensusParams :=
  match param with
  | posAnnualRateBps => { params with posAnnualRateBps := value.toUInt32 }
  | rewardAgeCap => { params with rewardAgeCap := value }
  | minStakeAge => { params with minStakeAge := value }
  | maxStakeAge => { params with maxStakeAge := value }
  | minStakeAmount => { params with minStakeAmount := value }
  | targetBlockTime => { params with targetBlockTime := value }

def apply (param : ParamId) (params : ConsensusParams) (value : UInt64) :
    Except NodeError ConsensusParams := do
  rejectIf (!param.allowed value)
    (invalidGovernance "governance parameter outside allowed range")
  let next := param.set params value
  rejectIf (next.minStakeAge > next.maxStakeAge)
    (invalidGovernance "minimum stake age exceeds maximum stake age")
  pure next

end ParamId

structure Proposal where
  param : ParamId
  newValue : UInt64
  activationHeight : UInt32
  votingEnd : UInt32
  deposit : UInt64
  deriving DecidableEq

abbrev ProposalId := ByteVector 8

/-- The bytes from `start` up to `stop`. -/
def slice (bytes : Bytes) (start stop : Nat) : Bytes :=
  (bytes.drop start).take (stop - start)

/-- A slice of known length as a fixed-size array. -/
def byteVector? (n : Nat) (bytes : Bytes) : Option (ByteVector n) :=
  if length : bytes.length = n then some ⟨bytes, length⟩ else none

namespace Proposal

def encode (proposal : Proposal) : Bytes :=
  proposalPrefix ++ leBytes 1 proposal.param.index ++ encodeU64 proposal.newValue ++
    encodeU32 proposal.activationHeight ++ encodeU32 proposal.votingEnd ++
    encodeU64 proposal.deposit

def decode (data : Bytes) : Option Proposal :=
  if data.length = 30 ∧ proposalPrefix <+: data then do
    let param ← ParamId.fromU8 (data.getD 5 0)
    pure {
      param := param
      newValue := UInt64.ofNat (leValue (slice data 6 14))
      activationHeight := UInt32.ofNat (leValue (slice data 14 18))
      votingEnd := UInt32.ofNat (leValue (slice data 18 22))
      deposit := UInt64.ofNat (leValue (slice data 22 30)) }
  else none

def validate (proposal : Proposal) (height : Nat) (burned : UInt64)
    (params : ConsensusParams) : Except NodeError Unit := do
  rejectIf (proposal.votingEnd.toNat < height)
    (invalidGovernance "voting end is in the past")
  rejectIf (proposal.activationHeight < proposal.votingEnd)
    (invalidGovernance "activation precedes voting end")
  let duration := proposal.votingEnd.toNat - height
  let delay := proposal.activationHeight.toNat - proposal.votingEnd.toNat
  rejectIf (!(2880 ≤ duration && duration ≤ 10080) ||
      !(2016 ≤ delay && delay ≤ 20160) ||
      proposal.votingEnd.toNat + lockGraceBlocks ≥ 2 ^ 32 ||
      proposal.deposit < 100 * coin || burned != proposal.deposit)
    (invalidGovernance "invalid proposal window, activation delay, or burned deposit")
  let _ ← proposal.param.apply params proposal.newValue
  pure ()

def idAt (crypto : Crypto) (proposal : Proposal) (height : Nat) : ProposalId :=
  ⟨(crypto.sha256 (proposal.encode ++ leBytes 4 height)).toList.take 8, by simp⟩

end Proposal

inductive VoteChoice where
  | yes
  | no
  | abstain
  deriving DecidableEq

def VoteChoice.index : VoteChoice → Nat
  | yes => 1
  | no => 2
  | abstain => 3

structure Vote where
  proposalId : ProposalId
  choice : VoteChoice
  deriving DecidableEq

def Vote.decode (data : Bytes) : Option Vote :=
  if data.length = 14 ∧ votePrefix <+: data then do
    let proposalId ← byteVector? 8 (slice data 5 13)
    match (data.getD 13 0).toNat with
    | 1 => some ⟨proposalId, .yes⟩
    | 2 => some ⟨proposalId, .no⟩
    | 3 => some ⟨proposalId, .abstain⟩
    | _ => none
  else none

/-- A vote signed by the spending authority of one unspent output. -/
structure SignedVote where
  vote : Vote
  outpoint : OutPoint
  signature : Bytes
  deriving DecidableEq

namespace SignedVote

def unsignedBytes (signed : SignedVote) : Bytes :=
  signedVotePrefix ++ signed.vote.proposalId.toList ++
    leBytes 1 signed.vote.choice.index ++ signed.outpoint.txid.toList ++
    leBytes 4 signed.outpoint.vout

def digest (crypto : Crypto) (signed : SignedVote) (genesis : Hash) : Hash :=
  crypto.sha256d (stringBytes "vTorrent governance vote v2" ++ [0] ++ genesis.toList ++
    signed.unsignedBytes)

def decode (data : Bytes) : Option SignedVote :=
  if data.length = 115 ∧ signedVotePrefix <+: data then do
    let vote ← Vote.decode (votePrefix ++ slice data 5 14)
    let txid ← byteVector? 32 (slice data 14 46)
    pure ⟨vote, ⟨txid, leValue (slice data 46 50)⟩, data.drop 50⟩
  else none

def ownerHash (utxo : Utxo) : Except NodeError Bytes :=
  match Script.fromBytes utxo.scriptPubkey with
  | .error _ => .error (invalidGovernance "invalid voting script")
  | .ok script =>
      match classifyScript script with
      | .p2pkh => .ok (slice utxo.scriptPubkey 3 23)
      | .p2cs _ spendingHash _ => .ok spendingHash
      | _ => .error (invalidGovernance "unsupported voting script")

def owner (crypto : Crypto) (signed : SignedVote) (utxo : Utxo) (genesis : Hash) :
    Except NodeError String := do
  rejectIf (signed.signature.length != 65)
    (invalidGovernance "invalid vote signature length")
  let recoveryId := (signed.signature.headD 0).toNat
  rejectIf (recoveryId > 3) (invalidGovernance "invalid vote recovery id")
  let compact := signed.signature.drop 1
  (crypto.recoverableFromCompact compact).mapError fun _ =>
    invalidGovernance "invalid vote signature"
  let key ← (crypto.recoverEcdsa (signed.digest crypto genesis) compact
    recoveryId).mapError fun _ => invalidGovernance "invalid vote signature"
  let ownerHash ← ownerHash utxo
  let compressed := ownerHash == (crypto.hash160 key.serialize).toList
  rejectIf (!compressed &&
      ownerHash != (crypto.hash160 key.serializeUncompressed).toList)
    (invalidGovernance "vote signature does not authorize the voting outpoint")
  pure (pubkeyToVtorrentAddress crypto key compressed)

end SignedVote

structure ProposalRecord where
  proposal : Proposal
  createdHeight : Nat
  yes : UInt64
  no : UInt64
  abstain : UInt64
  decided : Bool
  passed : Bool
  applied : Bool
  activationFailed : Bool
  quorumSupply : UInt64
  votedOutpoints : Std.ExtTreeSet OutPoint
  deriving DecidableEq

structure VoteLock where
  txid : Hash
  vout : Nat
  unlockHeight : Nat
  voter : String
  proposalId : ProposalId
  votingOrigin : OutPoint
  votingValue : UInt64
  votingOriginHeight : Nat
  deriving DecidableEq

@[ext]
structure GovernanceState where
  proposals : Std.ExtTreeMap ProposalId ProposalRecord
  lockedUtxos : Std.ExtTreeMap OutPoint VoteLock
  deriving DecidableEq

def ProposalRecord.tallyOf (record : ProposalRecord) : VoteChoice → UInt64
  | .yes => record.yes
  | .no => record.no
  | .abstain => record.abstain

def ProposalRecord.addVote (record : ProposalRecord) (choice : VoteChoice)
    (stake : UInt64) : ProposalRecord :=
  match choice with
  | .yes => { record with yes := record.yes + stake }
  | .no => { record with no := record.no + stake }
  | .abstain => { record with abstain := record.abstain + stake }

/-- Whether a proposal passes once its window has closed (`tally`). -/
def tallyPasses (record : ProposalRecord) (height : Nat) : Bool :=
  let yes := record.yes.toNat
  let decisive := yes + record.no.toNat
  let turnout := decisive + record.abstain.toNat
  decide (record.proposal.votingEnd.toNat ≤ height ∧
    record.quorumSupply ≠ 0 ∧
    record.quorumSupply.toNat * 33 ≤ turnout * 100 ∧
    decisive ≠ 0 ∧
    decisive * 66 ≤ yes * 100)

namespace GovernanceState

def empty : GovernanceState := ⟨∅, ∅⟩

def isUtxoLocked (state : GovernanceState) (outpoint : OutPoint) (height : Nat) : Bool :=
  match state.lockedUtxos[outpoint]? with
  | some lock => decide (height < lock.unlockHeight)
  | none => false

def settleRecord (height : Nat) (record : ProposalRecord) : ProposalRecord :=
  let ended := decide (record.proposal.votingEnd.toNat ≤ height)
  let settled :=
    if !record.decided && ended then
      { record with decided := true, passed := tallyPasses record height }
    else record
  if settled.decided && ended then { settled with votedOutpoints := ∅ } else settled

def activatesBefore (first second : ProposalId × ProposalRecord) : Bool :=
  ((compare first.2.proposal.activationHeight.toNat
      second.2.proposal.activationHeight.toNat).then
    ((compare first.2.createdHeight second.2.createdHeight).then
      (compare first.1 second.1))).isLE

def someStakeMature (params : ConsensusParams) (utxos : UtxoSet) (timestamp : UInt32) :
    Bool :=
  (FiniteMap.values utxos).any fun utxo =>
    isStakeableWith params utxo && utxo.timestamp ≤ timestamp &&
      decide (params.minStakeAge.toNat ≤ timestamp.toNat - utxo.timestamp.toNat ∧
        timestamp.toNat - utxo.timestamp.toNat ≤ params.maxStakeAge.toNat)

def activate (utxos : UtxoSet) (timestamp : UInt32)
    (state : GovernanceState × ConsensusParams)
    (due : ProposalId × ProposalRecord) : GovernanceState × ConsensusParams :=
  let candidate := due.2.proposal.param.apply state.2 due.2.proposal.newValue
  let accepted :=
    match candidate with
    | .ok params => if someStakeMature params utxos timestamp then some params else none
    | .error _ => none
  let record :=
    { due.2 with activationFailed := accepted.isNone, applied := true }
  ({ state.1 with proposals := state.1.proposals.insert due.1 record },
    accepted.getD state.2)

def beginBlock (state : GovernanceState) (height : Nat) (params : ConsensusParams)
    (utxos : UtxoSet) (timestamp : UInt32) : GovernanceState × ConsensusParams :=
  let settled : GovernanceState :=
    { lockedUtxos := state.lockedUtxos.filter fun _ lock => height < lock.unlockHeight
      proposals := state.proposals.map fun _ record => settleRecord height record }
  let pending := settled.proposals.toList.filter fun entry =>
    entry.2.passed && !entry.2.applied &&
      decide (entry.2.proposal.activationHeight.toNat ≤ height)
  (pending.insertionSort fun first second => activatesBefore first second).foldl
    (activate utxos timestamp) (settled, params)

end GovernanceState

/-- The payload of a data-carrier output with a single direct push. -/
def opReturnData (script : Bytes) : Option Bytes :=
  match script with
  | 0x6a :: length :: rest =>
      if 1 ≤ length.toNat ∧ length.toNat ≤ 75 then
        if rest.length = length.toNat then some rest else none
      else if length = 0x4c then
        match rest with
        | [] => none
        | length :: rest => if rest.length = length.toNat then some rest else none
      else none
  | _ => none

/-- What governance reads of the block and ledger a transaction is applied to. -/
structure GovernanceView where
  height : Nat
  timestamp : UInt32
  utxos : UtxoSet
  params : ConsensusParams
  totalStaked : UInt64
  genesis : Hash

namespace GovernanceState

abbrev Step := EStateM NodeError GovernanceState

def processProposal (crypto : Crypto) (view : GovernanceView) (value : UInt64)
    (data : Bytes) : Step Unit := do
  match Proposal.decode data with
  | none => throw (invalidGovernance "malformed governance proposal")
  | some proposal => do
      Retained.ofExcept (proposal.validate view.height value view.params)
      let id := proposal.idAt crypto view.height
      let state ← get
      rejectIf (state.proposals.contains id)
        (invalidGovernance "duplicate governance proposal")
      set { state with
        proposals := state.proposals.insert id {
          proposal := proposal
          createdHeight := view.height
          yes := 0
          no := 0
          abstain := 0
          decided := false
          passed := false
          applied := false
          activationFailed := false
          quorumSupply := view.totalStaked
          votedOutpoints := ∅ } }

def votingStake (state : GovernanceState) (outpoint : OutPoint) (utxo : Utxo) :
    OutPoint × UInt64 × Nat :=
  match state.lockedUtxos[outpoint]? with
  | some lock =>
      (lock.votingOrigin, min lock.votingValue utxo.value, lock.votingOriginHeight)
  | none => (outpoint, utxo.value, utxo.height)

/-- Count a vote and lock its output; the outpoint is recorded before the tally
is checked for overflow. -/
def recordVote (signed : SignedVote) (utxo : Utxo) (voter : String)
    (record : ProposalRecord) (stake : OutPoint × UInt64 × Nat) : Step Unit := do
  let id := signed.vote.proposalId
  let marked := { record with votedOutpoints := record.votedOutpoints.insert stake.1 }
  modify fun state => { state with proposals := state.proposals.insert id marked }
  rejectIf (decide ((marked.tallyOf signed.vote.choice).toNat +
      stake.2.1.toNat ≥ 2 ^ 64))
    (invalidGovernance "vote tally overflow")
  modify fun state => { state with
    proposals := state.proposals.insert id
      (marked.addVote signed.vote.choice stake.2.1) }
  let unlock := record.proposal.votingEnd.toNat + lockGraceBlocks
  rejectIf (decide (unlock ≥ 2 ^ 32)) (invalidGovernance "vote unlock overflow")
  modify fun state =>
    let lock := state.lockedUtxos[signed.outpoint]?.getD {
      txid := utxo.txid
      vout := utxo.vout
      unlockHeight := unlock
      voter := voter
      proposalId := id
      votingOrigin := stake.1
      votingValue := stake.2.1
      votingOriginHeight := stake.2.2 }
    let lock :=
      if unlock > lock.unlockHeight then
        { lock with unlockHeight := unlock, proposalId := id }
      else lock
    { state with lockedUtxos := state.lockedUtxos.insert signed.outpoint lock }

/-- The stake behind a vote is old and large enough. -/
def isMatureStake (view : GovernanceView) (utxo : Utxo) : Bool :=
  isStakeable utxo && utxo.value ≥ view.params.minStakeAmount &&
    utxo.timestamp ≤ view.timestamp &&
    decide (view.params.minStakeAge.toNat ≤
      view.timestamp.toNat - utxo.timestamp.toNat)

def processVote (crypto : Crypto) (view : GovernanceView) (data : Bytes) :
    Step Unit := do
  match SignedVote.decode data with
  | none => throw (invalidGovernance "malformed governance vote")
  | some signed =>
      match view.utxos[signed.outpoint]? with
      | none => throw (invalidGovernance "voting outpoint is not unspent")
      | some utxo => do
          rejectIf (!isMatureStake view utxo)
            (invalidGovernance "voting outpoint is not mature stake")
          let voter ← Retained.ofExcept (signed.owner crypto utxo view.genesis)
          let state ← get
          let stake := votingStake state signed.outpoint utxo
          match state.proposals[signed.vote.proposalId]? with
          | none => throw (invalidGovernance "unknown governance proposal")
          | some record => do
              rejectIf (decide (view.height ≤ record.createdHeight ∨
                  record.proposal.votingEnd.toNat ≤ view.height) || record.decided)
                (invalidGovernance "governance voting window is closed")
              rejectIf (decide (stake.2.2 ≥ record.createdHeight))
                (invalidGovernance "voting stake did not exist at proposal creation")
              rejectIf (record.votedOutpoints.contains stake.1)
                (invalidGovernance
                  "voting outpoint already counted for this proposal")
              recordVote signed utxo voter record stake

def processOutput (crypto : Crypto) (view : GovernanceView) (output : TxOutput) :
    Step Unit :=
  match opReturnData output.scriptPubkey with
  | none => pure ()
  | some data =>
      if proposalPrefix.isPrefixOf data then
        processProposal crypto view output.value data
      else if signedVotePrefix.isPrefixOf data then processVote crypto view data
      else if votePrefix.isPrefixOf data then
        throw (invalidGovernance "unsigned governance votes are not authorized")
      else pure ()

def processOutputs (crypto : Crypto) (view : GovernanceView) :
    List TxOutput → Step Unit
  | [] => pure ()
  | output :: outputs => do
      processOutput crypto view output
      processOutputs crypto view outputs

def processTransaction (crypto : Crypto) (view : GovernanceView) (tx : Transaction) :
    Step Unit :=
  processOutputs crypto view tx.outputs

def transferStakeLock (crypto : Crypto) (tx : Transaction) (utxo : Utxo)
    (height : Nat) : Step Unit := do
  let state ← get
  let key : OutPoint := ⟨utxo.txid, utxo.vout⟩
  if state.isUtxoLocked key height then
    match tx.outputs.zipIdx.filter fun output => output.1.value > 0,
        state.lockedUtxos[key]? with
    | [(output, vout)], some lock => do
        rejectIf (!tx.isCoinstake || output.scriptPubkey != utxo.scriptPubkey ||
            output.value < utxo.value)
          (invalidGovernance
            "vote-locked stake must re-lock all value to the same script")
        let moved := { lock with txid := tx.txid crypto, vout := vout }
        set { state with
          lockedUtxos := (state.lockedUtxos.erase key).insert
            ⟨moved.txid, moved.vout⟩ moved }
    | _, _ =>
        throw (invalidGovernance
          "vote-locked stake must re-lock all value to the same script")
  else pure ()

end GovernanceState

end Vtorrent
