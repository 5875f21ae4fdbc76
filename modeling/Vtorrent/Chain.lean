import Vtorrent.Ledger

/-!
# The chain: extension, forks and reorganisation

The chain keeps block bodies, headers and index maps for every known block,
the main chain as a list of hashes, and a window of journals.  A block that
extends the main tip is applied at once; a block on a known fork is stored
after its header checks and applied only when its branch becomes longer.
-/

namespace Vtorrent

structure Deployment where
  bit : Nat
  startHeight : Nat
  timeoutHeight : Nat
  deriving DecidableEq

def defaultPeriod : Nat := 2016
def defaultThresholdPct : Nat := 90

/-- `u32` multiplication that saturates. -/
def saturatingMulU32 (first second : Nat) : Nat := min (first * second) (2 ^ 32 - 1)

/-- The first completed period that reached the threshold in time. -/
def lockedInPeriod (deployment : Deployment) (period thresholdPct tipHeight : Nat)
    (signals : List Nat) : Option Nat :=
  let startPeriod := (deployment.startHeight + period - 1) / period
  let lastCompleted := tipHeight / period - 1
  ((List.range' startPeriod (lastCompleted + 1 - startPeriod)).takeWhile fun p =>
      decide ((p + 1) * period < deployment.timeoutHeight)).find? fun p =>
    decide (saturatingMulU32 (signals.getD p 0) 100 ≥
      saturatingMulU32 period thresholdPct)

/-- `deployment_state` is `Active`. -/
def deploymentActive (deployment : Deployment) (period thresholdPct tipHeight : Nat)
    (signals : List Nat) : Bool :=
  if period = 0 ∨ thresholdPct = 0 ∨ thresholdPct > 100 ∨
      tipHeight < deployment.startHeight then false
  else
    match lockedInPeriod deployment period thresholdPct tipHeight signals with
    | some lockedIn => decide (tipHeight / period ≥ lockedIn + 2)
    | none => false

def governanceDeployment : Option Deployment := none

/-- Settings of regtest and test builds: proof-of-work blocks and the two
governance overrides. -/
structure ChainOptions where
  allowPowTestBlocks : Bool
  governanceTestActivation : Option Nat
  governanceTestDeployment : Option (Deployment × Nat)
  deriving DecidableEq

/-- `usize::MAX`, which disables pruning of main-chain bodies. -/
def unlimitedBodies : Nat := 2 ^ 64 - 1

def maxForkBodies : Nat := 256

structure Chain extends Ledger, ChainOptions where
  blocks : Std.ExtTreeMap Hash Block
  headers : Std.ExtTreeMap Hash BlockHeader
  blockBodyCache : Nat
  heightIndex : List Hash
  txIndex : Std.ExtTreeMap Hash (Hash × Nat)
  journals : List BlockJournal
  maxReorgDepth : Nat
  cumulativeWork : Std.ExtTreeMap Hash Nat
  parentMap : Std.ExtTreeMap Hash Hash
  blockHeights : Std.ExtTreeMap Hash Nat
  deriving DecidableEq

/-- A main-chain block abandoned by a reorganisation. -/
structure RolledBackBlock where
  hash : Hash
  height : Nat
  utxosToRemove : List OutPoint
  utxosToRestore : List Utxo
  claimedToRemove : List String
  deriving DecidableEq

structure AppliedForkBlock where
  block : Block
  height : Nat
  utxosAdded : List Utxo
  utxosRemoved : List OutPoint
  claimedAddresses : List String
  deriving DecidableEq

structure ReorgReport where
  rolledBackTxs : List Transaction
  rolledBackBlocks : List RolledBackBlock
  appliedForkBlocks : List AppliedForkBlock
  deriving DecidableEq

inductive BlockAcceptance where
  | mainChain (height : Nat) (utxosAdded : List Utxo) (utxosRemoved : List OutPoint)
      (claimedAddresses : List String)
  | reorg (oldTip newTip : Hash) (depth : Nat) (report : ReorgReport)
  | fork (forkTip : Hash)
  | duplicate
  deriving DecidableEq

/-- The iteration order of a hash map's keys, some permutation of them. -/
structure KeyOrder where
  order : List Hash → List Hash
  perm : ∀ keys, (order keys).Perm keys

/-- The environment of one call: the clock and the hash map order. -/
structure CallContext where
  now : UInt32
  keyOrder : KeyOrder

namespace Chain

def bestHeight (chain : Chain) : Nat := chain.heightIndex.length - 1

def bestHash (chain : Chain) : Option Hash := chain.heightIndex.getLast?

def getHeaderAtHeight (chain : Chain) (height : Nat) : Option BlockHeader :=
  match chain.heightIndex[height]? with
  | some hash => chain.headers[hash]?
  | none => none

def getBlockAtHeight (chain : Chain) (height : Nat) : Option Block :=
  match chain.heightIndex[height]? with
  | some hash => chain.blocks[hash]?
  | none => none

def signalsAt (chain : Chain) (bit height : Nat) : Bool :=
  match chain.getHeaderAtHeight height with
  | some header => decide (header.version.toNat / 2 ^ bit % 2 = 1)
  | none => false

def countSignals (chain : Chain) (bit period : Nat) : List Nat :=
  if period = 0 then []
  else
    (List.range (chain.bestHeight / period + 1)).map fun index =>
      (List.range (chain.bestHeight + 1)).countP fun height =>
        decide (height / period = index) && chain.signalsAt bit height

def governanceDeploymentConfig (chain : Chain) : Option Deployment × Nat :=
  match chain.governanceTestDeployment with
  | some (deployment, period) => (some deployment, period)
  | none => (governanceDeployment, defaultPeriod)

def governanceActive (chain : Chain) (height : Nat) : Bool :=
  match chain.governanceTestActivation with
  | some activation => decide (height ≥ activation)
  | none =>
      match chain.governanceDeploymentConfig with
      | (none, _) => false
      | (some deployment, period) =>
          deploymentActive deployment period defaultThresholdPct height
            (chain.countSignals deployment.bit period)

def isBootstrapped (chain : Chain) : Bool :=
  match chain.getBlockAtHeight 1 with
  | some block => (block.transactions.head?.map Transaction.isLegacyClaim).getD false
  | none => false

def contextFor (network : Network) (chain : Chain) (block : Block) (height : Nat)
    (parentModifier : UInt64) : BlockContext where
  blockHash := block.hash network.crypto
  height := height
  timestamp := block.header.timestamp
  parentStakeModifier := parentModifier
  governanceActive := chain.governanceActive height
  genesisHash := chain.heightIndex.headD zeroHash
  bootstrapped := chain.isBootstrapped

def parentModifier (chain : Chain) (block : Block) (height : Nat) :
    Except NodeError UInt64 :=
  if height = 0 then .ok 0
  else
    match chain.headers[block.header.prevBlockHash]? with
    | some header => .ok header.stakeModifier
    | none => .error (.chain "Parent block not found for stake modifier")

abbrev Step := EStateM NodeError Chain

/-- `apply_block_journaled`, which touches only the ledger. -/
def applyBlockJournaled (network : Network) (block : Block) (height : Nat) :
    Step BlockJournal := fun chain =>
  match chain.parentModifier block height with
  | .error error => .error error chain
  | .ok modifier =>
      match Vtorrent.applyBlockJournaled network
          (chain.contextFor network block height modifier) block.transactions
          chain.toLedger with
      | .ok journal ledger => .ok journal { chain with toLedger := ledger }
      | .error error ledger => .error error { chain with toLedger := ledger }

def indexTransactions (crypto : Crypto) (blockHash : Hash) :
    Nat → List Transaction → Std.ExtTreeMap Hash (Hash × Nat) →
      Std.ExtTreeMap Hash (Hash × Nat)
  | _, [], index => index
  | offset, tx :: txs, index =>
      indexTransactions crypto blockHash (offset + 1) txs
        (index.insert (tx.txid crypto) (blockHash, offset))

def indexBlockTransactions (crypto : Crypto) (blockHash : Hash) (block : Block)
    (chain : Chain) : Chain :=
  { chain with
    txIndex := indexTransactions crypto blockHash 0 block.transactions chain.txIndex }

def unindexTransactions (crypto : Crypto) (txs : List Transaction)
    (index : Std.ExtTreeMap Hash (Hash × Nat)) : Std.ExtTreeMap Hash (Hash × Nat) :=
  txs.foldl (fun index tx => index.erase (tx.txid crypto)) index

def transactionsOf (chain : Chain) (hash : Hash) : List Transaction :=
  match chain.blocks[hash]? with
  | some block => block.transactions
  | none => []

def removeBlockTransactions (crypto : Crypto) (blockHash : Hash) (chain : Chain) : Chain :=
  { chain with
    txIndex := unindexTransactions crypto (chain.transactionsOf blockHash) chain.txIndex }

/-- The chain before any block, with the settings of `Chain::new`. -/
def blank (allowPow : Bool) : Chain where
  utxoSet := ∅
  claimedAddresses := ∅
  totalSupply := 0
  totalStaked := 0
  params := .initial
  governance := .empty
  allowPowTestBlocks := allowPow
  governanceTestActivation := none
  governanceTestDeployment := none
  blocks := ∅
  headers := ∅
  blockBodyCache := unlimitedBodies
  heightIndex := []
  txIndex := ∅
  journals := []
  maxReorgDepth := 100
  cumulativeWork := ∅
  parentMap := ∅
  blockHeights := ∅

def registerGenesis (hash : Hash) (genesis : Block) (chain : Chain) : Chain :=
  { chain with
    blocks := chain.blocks.insert hash genesis
    headers := chain.headers.insert hash genesis.header
    heightIndex := chain.heightIndex ++ [hash]
    cumulativeWork := chain.cumulativeWork.insert hash 1
    blockHeights := chain.blockHeights.insert hash 0 }

/-- `Chain::new`, in a build whose `cfg!(test)` is `allowPow`. -/
def new (network : Network) (allowPow : Bool) : Except NodeError Chain :=
  let genesis := network.genesisBlock
  let hash := genesis.hash network.crypto
  let registered := registerGenesis hash genesis (blank allowPow)
  match applyBlockJournaled network genesis 0 registered with
  | .error error _ => .error error
  | .ok journal chain =>
      let indexed := indexBlockTransactions network.crypto hash genesis chain
      .ok { indexed with journals := indexed.journals ++ [journal] }

def newWith (network : Network) (options : ChainOptions) : Except NodeError Chain :=
  (new network options.allowPowTestBlocks).map fun chain =>
    { chain with toChainOptions := options }

def retainedMainBodies (chain : Chain) : Nat :=
  if chain.blockBodyCache = unlimitedBodies then chain.heightIndex.length
  else min chain.heightIndex.length (max chain.blockBodyCache 2)

def evict (hash : Hash) (chain : Chain) : Chain :=
  { chain with
    blocks := chain.blocks.erase hash
    headers := chain.headers.erase hash
    parentMap := chain.parentMap.erase hash
    blockHeights := chain.blockHeights.erase hash
    cumulativeWork := chain.cumulativeWork.erase hash }

def forkVictim (keyOrder : KeyOrder) (chain : Chain) : Option Hash :=
  ((keyOrder.order chain.blocks.keys).filter fun hash =>
      !chain.heightIndex.contains hash &&
        !(FiniteMap.values chain.parentMap).contains hash).argmin
    fun hash => chain.cumulativeWork[hash]?.getD (2 ^ 64 - 1)

/-- Evict fork leaves while there are too many bodies; each round drops one. -/
def pruneForkBodies (keyOrder : KeyOrder) (bound : Nat) : Nat → Chain → Chain
  | 0, chain => chain
  | fuel + 1, chain =>
      if chain.blocks.size > bound then
        match forkVictim keyOrder chain with
        | some hash => pruneForkBodies keyOrder bound fuel (chain.evict hash)
        | none => chain
      else chain

/-- The main-chain body that falls out of the window, if it may go. -/
def pruneVictim (chain : Chain) : Option Hash :=
  if chain.blockBodyCache ≠ unlimitedBodies ∧
      chain.heightIndex.length > chain.blockBodyCache then
    let victimHeight := chain.heightIndex.length - 1 - chain.blockBodyCache
    if victimHeight ≥ 2 then
      chain.heightIndex[victimHeight]?.filter fun hash =>
        !chain.journals.any fun journal => journal.blockHash == hash
    else none
  else none

/-- Drop block bodies outside the retention window. -/
def pruneBodies (keyOrder : KeyOrder) (chain : Chain) : Chain :=
  let pruned :=
    match chain.pruneVictim with
    | some hash => { chain with blocks := chain.blocks.erase hash }
    | none => chain
  pruneForkBodies keyOrder (pruned.retainedMainBodies + maxForkBodies)
    pruned.blocks.size pruned

def ancestorsWithin (chain : Chain) (genesis : Hash) : Nat → Hash → List Hash
  | 0, tip => [tip]
  | fuel + 1, tip =>
      if tip = genesis then [tip]
      else
        match chain.parentMap[tip]? with
        | some parent => tip :: ancestorsWithin chain genesis fuel parent
        | none => [tip]

/-- `ancestors`; a path without repetition has at most one step for every entry
of the parent map. -/
def ancestors (chain : Chain) (tip : Hash) : List Hash :=
  chain.ancestorsWithin (chain.heightIndex.headD zeroHash) chain.parentMap.size tip

/-- The outputs a rolled-back block had created and spent. -/
def rolledBack (journal : BlockJournal) (ledger : Ledger) : RolledBackBlock :=
  let touched := Std.ExtTreeSet.ofList (journal.changes.map UtxoChange.key) |>.toList
  { hash := journal.blockHash
    height := journal.height
    utxosToRemove := touched.filter fun key => !ledger.utxoSet.contains key
    utxosToRestore := touched.filterMap fun key => ledger.utxoSet[key]?
    claimedToRemove := journal.claimedAddresses }

def rollbackOneBlock (crypto : Crypto) : Step (List Transaction × RolledBackBlock) :=
  fun chain =>
    match chain.journals.getLast? with
    | none => .error (.chain "No journal to roll back") chain
    | some journal =>
        let restored := rollbackJournal chain.toLedger journal
        let rolledBackTxs := chain.transactionsOf journal.blockHash
        let unindexed := removeBlockTransactions crypto journal.blockHash
          { chain with
            toLedger := restored
            journals := chain.journals.dropLast }
        .ok (rolledBackTxs, rolledBack journal restored)
          { unindexed with heightIndex := unindexed.heightIndex.dropLast }

def rollbackBlocks (crypto : Crypto) : Nat → ReorgReport → Step ReorgReport
  | 0, report => pure report
  | count + 1, report => do
      let (txs, rolledBackBlock) ← rollbackOneBlock crypto
      rollbackBlocks crypto count { report with
        rolledBackTxs := report.rolledBackTxs ++ txs
        rolledBackBlocks := report.rolledBackBlocks ++ [rolledBackBlock] }

/-- The fork blocks from `cursor` down to the fork point, tip first. -/
def forkPathWithin (chain : Chain) (forkPoint : Hash) :
    Nat → Hash → Except NodeError (List Hash)
  | 0, cursor =>
      if cursor = forkPoint then .ok []
      else .error (.chain "Missing parent during reorg apply")
  | fuel + 1, cursor =>
      if cursor = forkPoint then .ok []
      else
        match chain.parentMap[cursor]? with
        | none => .error (.chain "Missing parent during reorg apply")
        | some parent => do
            let path ← chain.forkPathWithin forkPoint fuel parent
            pure (cursor :: path)

/-- The outputs a journal added and removed, as reported for a fork block. -/
def forkDiff (ledger : Ledger) (changes : List UtxoChange) : List Utxo × List OutPoint :=
  changes.foldl (fun diff change =>
    match change with
    | .added key =>
        (diff.1 ++ ledger.utxoSet[key]?.toList, diff.2.filter fun other => other ≠ key)
    | .removed key _ => (diff.1, diff.2 ++ [key])) ([], [])

def utxoRootMismatch (block : Block) (journal : BlockJournal) : NodeError :=
  .invalidBlock ("UTXO root " ++ hexEncode block.header.utxoRoot.toList ++
    " does not match computed post-state root " ++ hexEncode journal.utxoRoot.toList)

/-- A proof-of-stake header commits to the UTXO set after the block. -/
def utxoRootWrong (block : Block) (journal : BlockJournal) : Bool :=
  block.header.isPos && block.header.utxoRoot != journal.utxoRoot

def applyForkBlock (network : Network) (height : Nat) (hash : Hash) :
    Step AppliedForkBlock := do
  let chain ← get
  match chain.blocks[hash]? with
  | none => throw (NodeError.chain ("Missing block " ++ hexEncode hash.toList ++
      " during reorg"))
  | some block => do
      let journal ← applyBlockJournaled network block height
      rejectIf (utxoRootWrong block journal) (utxoRootMismatch block journal)
      modify (indexBlockTransactions network.crypto hash block)
      let chain ← get
      let diff := forkDiff chain.toLedger journal.changes
      modify fun chain => { chain with
        journals := chain.journals ++ [journal]
        heightIndex := chain.heightIndex ++ [hash] }
      pure {
        block := block
        height := height
        utxosAdded := diff.1
        utxosRemoved := diff.2
        claimedAddresses := journal.claimedAddresses }

def applyForkBlocks (network : Network) :
    Nat → List Hash → ReorgReport → Step ReorgReport
  | _, [], report => pure report
  | height, hash :: hashes, report => do
      let applied ← applyForkBlock network height hash
      applyForkBlocks network (height + 1) hashes { report with
        appliedForkBlocks := report.appliedForkBlocks ++ [applied] }

/-- The first block of the old chain, from its tip, that the new one shares; the
zero hash stands for none. -/
def forkPointOf (oldChain newChain : List Hash) : Hash :=
  (oldChain.find? fun hash => newChain.contains hash).getD zeroHash

/-- The `Debug` text of a byte array. -/
def debugBytes (hash : Hash) : String :=
  "[" ++ String.intercalate ", " (hash.toList.map toString) ++ "]"

def reorgVerificationFailed (chain : Chain) (newTip : Hash) (newTipHeight : Nat) :
    NodeError :=
  let reached :=
    match chain.bestHash with
    | some hash => "Some(" ++ debugBytes hash ++ ")"
    | none => "None"
  .chain ("reorg verification failed: expected tip " ++ debugBytes newTip ++
    " at height " ++ toString newTipHeight ++ ", got " ++ reached ++ " at height " ++
    toString chain.bestHeight)

/-- `reorganize_to_inner`. -/
def reorganizeToInner (network : Network) (newTip : Hash) (newTipHeight : Nat) :
    Step ReorgReport := do
  let chain ← get
  let oldTip := chain.bestHash.getD zeroHash
  let forkPoint := forkPointOf (chain.ancestors oldTip) (chain.ancestors newTip)
  rejectIf (forkPoint == zeroHash)
    (NodeError.chain "No common ancestor found during reorg")
  match chain.blockHeights[forkPoint]? with
  | none => throw (NodeError.chain "Fork point not on main chain")
  | some forkHeight => do
      let rollbackDepth := chain.bestHeight - forkHeight
      rejectIf (decide (rollbackDepth > chain.journals.length))
        (NodeError.chain ("Reorg depth " ++ toString rollbackDepth ++
          " exceeds available rollback history " ++ toString chain.journals.length))
      let report ← rollbackBlocks network.crypto rollbackDepth ⟨[], [], []⟩
      let chain ← get
      let path ← Retained.ofExcept
        (chain.forkPathWithin forkPoint chain.parentMap.size newTip)
      let report ← applyForkBlocks network (forkHeight + 1) path.reverse report
      let chain ← get
      rejectIf (chain.bestHash != some newTip || chain.bestHeight != newTipHeight)
        (reorgVerificationFailed chain newTip newTipHeight)
      pure report

/-- `reorganize_to`: a failed reorganisation restores the state it cloned. -/
def reorganizeTo (network : Network) (newTip : Hash) (newTipHeight : Nat) :
    Step ReorgReport := fun before =>
  match reorganizeToInner network newTip newTipHeight before with
  | .ok report chain => .ok report chain
  | .error error chain =>
      .error error { chain with
        toLedger := before.toLedger
        heightIndex := before.heightIndex
        txIndex := before.txIndex
        journals := before.journals }

/-- The outputs a journal added and removed, as reported for a main-chain block. -/
def mainDiff (ledger : Ledger) (changes : List UtxoChange) : List Utxo × List OutPoint :=
  changes.foldl (fun diff change =>
    match change with
    | .added key => (diff.1 ++ ledger.utxoSet[key]?.toList, diff.2)
    | .removed key _ => (diff.1, diff.2 ++ [key])) ([], [])

def parentView (header : BlockHeader) (height : Nat) (hash : Hash) : ParentView where
  height := height
  timestamp := header.timestamp
  bits := header.bits
  stakeModifier := header.stakeModifier
  hash := hash

def recordIndex (hash parent : Hash) (work height : Nat) (chain : Chain) : Chain :=
  { chain with
    cumulativeWork := chain.cumulativeWork.insert hash work
    parentMap := chain.parentMap.insert hash parent
    blockHeights := chain.blockHeights.insert hash height }

def recordBody (hash : Hash) (block : Block) (chain : Chain) : Chain :=
  { chain with
    headers := chain.headers.insert hash block.header
    blocks := chain.blocks.insert hash block }

/-- Append a journal and keep at most `maxReorgDepth` of them. -/
def pushJournal (journal : BlockJournal) (chain : Chain) : Chain :=
  let journals := chain.journals ++ [journal]
  { chain with journals := journals.drop (journals.length - chain.maxReorgDepth) }

def workOf (chain : Chain) (hash : Hash) : Nat := chain.cumulativeWork[hash]?.getD 0

/-- Record an applied block as the new tip of the main chain. -/
def appendBlock (crypto : Crypto) (block : Block) (height : Nat) (journal : BlockJournal)
    (chain : Chain) : Chain :=
  let hash := block.hash crypto
  let prevHash := block.header.prevBlockHash
  let recorded := chain.recordIndex hash prevHash (chain.workOf prevHash + 1) height
    |>.pushJournal journal
    |> indexBlockTransactions crypto hash block
    |>.recordBody hash block
  { recorded with heightIndex := recorded.heightIndex ++ [hash] }

def extendMain (network : Network) (call : CallContext) (block : Block) :
    Step BlockAcceptance := do
  let chain ← get
  let prevHash := block.header.prevBlockHash
  let height := chain.bestHeight + 1
  match chain.getHeaderAtHeight (height - 1) with
  | none => throw (NodeError.chain "Previous block not found")
  | some prevHeader => do
      Retained.ofExcept (validateBlockInner network.crypto call.now block
        (parentView prevHeader (height - 1) prevHash) chain.allowPowTestBlocks)
      let journal ← applyBlockJournaled network block height
      let chain ← get
      if utxoRootWrong block journal then do
        set { chain with toLedger := rollbackJournal chain.toLedger journal }
        throw (utxoRootMismatch block journal)
      else do
        let diff := mainDiff chain.toLedger journal.changes
        modify fun chain =>
          (chain.appendBlock network.crypto block height journal).pruneBodies
            call.keyOrder
        pure (.mainChain height diff.1 diff.2 journal.claimedAddresses)

def storeBlock (crypto : Crypto) (block : Block) (parentHeight : Nat) (chain : Chain) :
    Chain :=
  let hash := block.hash crypto
  let prevHash := block.header.prevBlockHash
  (chain.recordIndex hash prevHash (chain.workOf prevHash + 1)
    (parentHeight + 1)).recordBody hash block

/-- Switch to a stored fork block, or forget the block if its branch fails. -/
def switchTo (network : Network) (call : CallContext) (mainTip hash : Hash)
    (height : Nat) : Step BlockAcceptance := fun chain =>
  match reorganizeTo network hash height chain with
  | .ok report chain =>
      .ok (.reorg mainTip hash report.rolledBackBlocks.length report)
        (chain.pruneBodies call.keyOrder)
  | .error error chain => .error error (chain.evict hash)

def extendFork (network : Network) (call : CallContext) (block : Block)
    (parentHeight : Nat) : Step BlockAcceptance := do
  let chain ← get
  let hash := block.hash network.crypto
  let prevHash := block.header.prevBlockHash
  let mainTip := chain.bestHash.getD zeroHash
  match chain.headers[prevHash]? with
  | none => throw (NodeError.chain ("missing parent header " ++ hexEncode prevHash.toList))
  | some parentHeader => do
      Retained.ofExcept (validateBlockInner network.crypto call.now block
        (parentView parentHeader parentHeight prevHash) chain.allowPowTestBlocks)
      let stored := chain.storeBlock network.crypto block parentHeight
      set stored
      if chain.workOf prevHash + 1 > stored.workOf mainTip then
        switchTo network call mainTip hash (parentHeight + 1)
      else do
        modify (pruneBodies call.keyOrder)
        pure (.fork hash)

/-- `add_block`. -/
def addBlock (network : Network) (call : CallContext) (block : Block) :
    Step BlockAcceptance := do
  let chain ← get
  let hash := block.hash network.crypto
  let prevHash := block.header.prevBlockHash
  if chain.blockHeights.contains hash then pure .duplicate
  else if prevHash = chain.bestHash.getD zeroHash then extendMain network call block
  else
    match chain.blockHeights[prevHash]? with
    | some parentHeight => extendFork network call block parentHeight
    | none => throw (NodeError.invalidBlock ("Orphan block " ++ hexEncode hash.toList ++
        ": parent " ++ hexEncode prevHash.toList ++ " not found"))

end Chain

end Vtorrent
