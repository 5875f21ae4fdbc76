import Vtorrent.BtcWallet
import Vtorrent.CompactTargets
import Vtorrent.FiniteMapFilters
import Vtorrent.RetainedState

/-!
# The Bitcoin header chain

The wallet stores Bitcoin headers with their heights and cumulative work and follows the
tip of most work.  A retention window bounds the store: pruning keeps the best chain down
to the window, and genesis, and drops everything else.  A sync pass adds the headers that
a peer sends to a copy of the store, and then asks whether the previous tip is still on
the best chain.
-/

namespace Vtorrent

namespace Btc

open Std

/-- `bitcoin::block::Header`. -/
structure Header where
  version : UInt32
  prevBlockhash : Hash
  merkleRoot : Hash
  time : UInt32
  bits : UInt32
  nonce : UInt32
  deriving DecidableEq

/-- The functions and parameters of the `bitcoin` crate for one network. -/
structure HeaderRules where
  /-- `Header::block_hash` -/
  blockHash : Header → Hash
  /-- `Header::validate_pow` against the header's own target, with the text of its error. -/
  validatePow : Header → Except String Unit
  /-- `Target::from` of a compact target. -/
  target : UInt32 → Nat
  /-- `Target::to_compact_lossy` -/
  toCompactLossy : Nat → UInt32
  /-- `CompactTarget::from_header_difficulty_adjustment` -/
  difficultyAdjustment : Header → Header → UInt32
  /-- The header of `genesis_block`. -/
  genesis : Header
  maxAttainableTarget : Nat
  powTargetTimespan : Nat
  powTargetSpacing : Nat
  allowMinDifficultyBlocks : Bool

namespace HeaderRules

def genesisHash (rules : HeaderRules) : Hash := rules.blockHash rules.genesis

def interval (rules : HeaderRules) : Nat := rules.powTargetTimespan / rules.powTargetSpacing

def powLimit (rules : HeaderRules) : UInt32 := rules.toCompactLossy rules.maxAttainableTarget

end HeaderRules

/-- Extra headers allowed above the retention window before a prune runs. -/
def pruneSlack : Nat := 1024

structure StoredHeader where
  header : Header
  height : Nat
  work : Nat
  deriving DecidableEq

/-- `HeaderChain`, anchored to a network. -/
structure HeaderChain where
  headers : ExtTreeMap Hash StoredHeader
  bestHash : Option Hash
  bestHeight : Nat
  bestWork : Nat
  /-- The most headers to retain, without a bound when it is zero. -/
  retention : Nat

/-- `header_work`, which counts as the light client does. -/
def headerWork (bits : UInt32) : Nat := Spv.headerWork bits

namespace HeaderChain

def anchored (rules : HeaderRules) : HeaderChain where
  headers := (∅ : ExtTreeMap Hash StoredHeader).insert rules.genesisHash
    ⟨rules.genesis, 0, headerWork rules.genesis.bits⟩
  bestHash := some rules.genesisHash
  bestHeight := 0
  bestWork := headerWork rules.genesis.bits
  retention := 0

/-- The stored headers from a hash down to a height, from the tip on.  The number bounds
the steps: each one goes down by one height. -/
def lineage (chain : HeaderChain) (startHeight : Nat) : Nat → Hash → List Hash
  | 0, _ => []
  | steps + 1, hash =>
      match chain.headers[hash]? with
      | none => []
      | some stored =>
          if stored.height < startHeight then []
          else if stored.height = 0 then [hash]
          else hash :: lineage chain startHeight steps stored.header.prevBlockhash

def steps (chain : HeaderChain) : Nat := chain.bestHeight + 1

def bestLineage (chain : HeaderChain) (startHeight : Nat) : List Hash :=
  match chain.bestHash with
  | none => []
  | some tip => chain.lineage startHeight chain.steps tip

/-- `hashes_from`. -/
def hashesFrom (chain : HeaderChain) (startHeight : Nat) : List Hash :=
  (chain.bestLineage startHeight).reverse

/-- `prune_force`. -/
def pruneForce (rules : HeaderRules) (chain : HeaderChain) : HeaderChain :=
  if chain.retention = 0 ∨ chain.bestHeight ≤ chain.retention then chain
  else
    let keep := chain.bestLineage (chain.bestHeight - chain.retention)
    let genesis := ((FiniteMap.values chain.headers).find? fun stored => stored.height = 0).map
      fun stored => rules.blockHash stored.header
    { chain with
      headers := chain.headers.filter fun hash _ => hash ∈ keep ++ genesis.toList }

/-- `prune`. -/
def prune (rules : HeaderRules) (chain : HeaderChain) : HeaderChain :=
  if chain.retention = 0 ∨ chain.bestHeight ≤ chain.retention then chain
  else if chain.headers.size ≤ chain.retention + pruneSlack then chain
  else chain.pruneForce rules

/-- `set_retention`. -/
def setRetention (rules : HeaderRules) (retention : Nat) (chain : HeaderChain) : HeaderChain :=
  { chain with retention := retention }.pruneForce rules

/-- `retained_floor`. -/
def retainedFloor (chain : HeaderChain) : Nat :=
  if chain.retention = 0 then 0 else chain.bestHeight - chain.retention % 2 ^ 32

def retargetBoundary (chain : HeaderChain) (boundaryHeight : Nat) :
    Nat → Hash → Except BtcError StoredHeader
  | 0, _ => .error (.bitcoin "missing retarget boundary header")
  | steps + 1, hash =>
      match chain.headers[hash]? with
      | none => .error (.bitcoin "missing retarget boundary header")
      | some stored =>
          if stored.height = boundaryHeight then .ok stored
          else retargetBoundary chain boundaryHeight steps stored.header.prevBlockhash

/-- Walk back over the blocks of minimal difficulty to the last retarget. -/
def difficultyAncestor (rules : HeaderRules) (chain : HeaderChain) :
    Nat → StoredHeader → Except BtcError StoredHeader
  | 0, _ => .error (.bitcoin "missing testnet difficulty ancestor")
  | steps + 1, cursor =>
      if cursor.height % rules.interval ≠ 0 ∧ cursor.header.bits = rules.powLimit then
        match chain.headers[cursor.header.prevBlockhash]? with
        | none => .error (.bitcoin "missing testnet difficulty ancestor")
        | some parent => difficultyAncestor rules chain steps parent
      else .ok cursor

def expectedBits (rules : HeaderRules) (chain : HeaderChain) (header : Header) (height : Nat)
    (parent : StoredHeader) : Except BtcError UInt32 :=
  if height % rules.interval = 0 then
    (chain.retargetBoundary (height - rules.interval % 2 ^ 32) (parent.height + 2)
      header.prevBlockhash).map fun boundary =>
        rules.difficultyAdjustment boundary.header parent.header
  else if rules.allowMinDifficultyBlocks ∧
      header.time.toNat > parent.header.time.toNat + rules.powTargetSpacing * 2 then
    .ok rules.powLimit
  else if rules.allowMinDifficultyBlocks then
    (chain.difficultyAncestor rules (parent.height + 2) parent).map fun cursor =>
      cursor.header.bits
  else .ok parent.header.bits

def parentOf (chain : HeaderChain) (header : Header) : Except BtcError StoredHeader :=
  match chain.headers[header.prevBlockhash]? with
  | none => .error (.bitcoin ("unknown parent " ++ hexEncode header.prevBlockhash.toList))
  | some parent => .ok parent

/-- A header with its work on top of its parent's, `u128::saturating_add`. -/
def onTop (header : Header) (height parentWork : Nat) : StoredHeader :=
  ⟨header, height, min (parentWork + headerWork header.bits) (2 ^ 128 - 1)⟩

def store (hash : Hash) (stored : StoredHeader) (chain : HeaderChain) : HeaderChain :=
  if chain.bestHash.isNone ∨ stored.work > chain.bestWork then
    { chain with
      headers := chain.headers.insert hash stored
      bestHeight := stored.height
      bestHash := some hash
      bestWork := stored.work }
  else { chain with headers := chain.headers.insert hash stored }

/-- `add_header`. -/
def addHeader (rules : HeaderRules) (header : Header) (height : Nat) (chain : HeaderChain) :
    Except BtcError HeaderChain := do
  let hash := rules.blockHash header
  if hash ∈ chain.headers then pure chain
  else do
    (rules.validatePow header).mapError fun error =>
      .bitcoin ("PoW validation failed: " ++ error)
    rejectIf (decide (rules.target header.bits > rules.maxAttainableTarget))
      (BtcError.bitcoin "header target exceeds the network proof-of-work limit")
    rejectIf (height == 0)
      (BtcError.bitcoin "anchored header chain already contains genesis")
    let parent ← chain.parentOf header
    let expected ← chain.expectedBits rules header height parent
    rejectIf (header.bits != expected)
      (BtcError.bitcoin ("unexpected difficulty at height " ++ toString height ++ ": got " ++
        hexEncode (leBytes 4 header.bits.toNat).reverse ++ ", expected " ++
        hexEncode (leBytes 4 expected.toNat).reverse))
    rejectIf (height != parent.height + 1)
      (BtcError.bitcoin ("height " ++ toString height ++ " does not follow parent height " ++
        toString parent.height))
    pure ((chain.store hash (onTop header height parent.work)).prune rules)

/-- The inner loop of `block_locator`: walk down to a height, as far as headers are
stored. -/
def descend (chain : HeaderChain) (target : Nat) : Nat → Hash → Hash
  | 0, hash => hash
  | steps + 1, hash =>
      match chain.headers[hash]? with
      | none => hash
      | some stored =>
          if stored.height ≤ target then hash
          else descend chain target steps stored.header.prevBlockhash

/-- The outer loop of `block_locator`, with the step and the number of hashes so far. -/
def locatorFrom (chain : HeaderChain) : Nat → Nat → Nat → Hash → List Hash
  | 0, _, _, _ => []
  | rounds + 1, step, length, hash =>
      hash ::
        match chain.headers[hash]? with
        | none => []
        | some current =>
            if current.height = 0 then []
            else
              locatorFrom chain rounds
                (if length + 1 > 10 then min (step * 2) (2 ^ 32 - 1) else step) (length + 1)
                (chain.descend (current.height - step) (current.height + 1) hash)

/-- `block_locator`. -/
def blockLocator (chain : HeaderChain) : List Hash :=
  match chain.bestHash with
  | none => [zeroHash]
  | some tip => chain.locatorFrom chain.steps 1 0 tip

/-- The walk of `is_ancestor` from a cursor. -/
def isAncestorFrom (chain : HeaderChain) (ancestor : Hash) : Nat → Hash → Bool
  | 0, _ => false
  | steps + 1, cursor =>
      if cursor = ancestor then true
      else
        match chain.headers[cursor]? with
        | none => false
        | some entry =>
            if chain.headers[ancestor]?.any fun stored => entry.height ≤ stored.height then false
            else if entry.height = 0 then false
            else isAncestorFrom chain ancestor steps entry.header.prevBlockhash

def stepsFrom (chain : HeaderChain) (hash : Hash) : Nat :=
  (chain.headers[hash]?.map StoredHeader.height).getD 0 + 2

/-- `is_ancestor`. -/
def isAncestor (chain : HeaderChain) (ancestor tip : Hash) : Bool :=
  chain.isAncestorFrom ancestor (chain.stepsFrom tip) tip

/-- The walk of `find_fork` from a cursor. -/
def findForkFrom (chain : HeaderChain) : Nat → Hash → Nat
  | 0, _ => chain.retainedFloor
  | steps + 1, cursor =>
      match chain.headers[cursor]? with
      | none => chain.retainedFloor
      | some entry =>
          if (chain.hashesFrom entry.height).head? = some cursor then entry.height
          else if entry.height = 0 then 0
          else findForkFrom chain steps entry.header.prevBlockhash

/-- `find_fork`. -/
def findFork (chain : HeaderChain) (oldBest : Hash) : Nat :=
  chain.findForkFrom (chain.stepsFrom oldBest) oldBest

/-- Whether a pass that starts from a tip takes the reorganisation path, and the fork height
it resumes from. -/
def reorganisation (chain : HeaderChain) (previousBest : Option Hash) : Option Nat :=
  match previousBest, chain.bestHash with
  | some previous, some new =>
      if new ≠ previous ∧ ¬ chain.isAncestor previous new then some (chain.findFork previous)
      else none
  | _, _ => none

def addBatch (rules : HeaderRules) :
    List Header → Nat × HeaderChain → Except BtcError (Nat × HeaderChain)
  | [], state => .ok state
  | header :: headers, (added, chain) =>
      if rules.blockHash header ∈ chain.headers then addBatch rules headers (added, chain)
      else
        match chain.headers[header.prevBlockhash]? with
        | none => .error (.sync "Missing BTC header parent")
        | some parent =>
            if parent.height + 1 < 2 ^ 32 then
              match chain.addHeader rules header (parent.height + 1) with
              | .error error => .error error
              | .ok after => addBatch rules headers (added + 1, after)
            else .error (.sync "Missing BTC header parent")

/-- `sync_headers`: messages are read until one is short.  When there is none, receiving
fails. -/
def syncHeaders (rules : HeaderRules) (failure : BtcError) :
    List (List Header) → Nat × HeaderChain → Except BtcError (Nat × HeaderChain)
  | [], _ => .error failure
  | batch :: batches, state =>
      match addBatch rules batch state with
      | .error error => .error error
      | .ok after =>
          if batch.length < 2000 then .ok after
          else if after.1 = state.1 then .error (.sync "BTC header peer made no progress")
          else syncHeaders rules failure batches after

end HeaderChain

/-- A direct call on a header chain. -/
inductive HeaderCall where
  | addHeader (header : Header) (height : UInt32)
  | setRetention (retention : Nat)

namespace HeaderCall

def delivered : HeaderCall → List Header
  | .addHeader header _ => [header]
  | .setRetention _ => []

def perform (rules : HeaderRules) (chain : HeaderChain) : HeaderCall → HeaderChain
  | .addHeader header height =>
      match chain.addHeader rules header height.toNat with
      | .ok after => after
      | .error _ => chain
  | .setRetention retention => chain.setRetention rules retention

end HeaderCall

def HeaderChain.performAll (rules : HeaderRules) (calls : List HeaderCall)
    (chain : HeaderChain) : HeaderChain :=
  calls.foldl (HeaderCall.perform rules) chain

structure SyncedWallet where
  headers : HeaderChain
  wallet : BtcWallet
  resetOnSync : Bool

/-- What a peer sends in a pass, and how receiving fails after that. -/
structure PeerAnswers where
  batches : List (List Header)
  failure : BtcError

namespace SyncedWallet

/-- `sync`, with the outcomes of the two saves that it may make. -/
def sync (rules : HeaderRules) (peer : PeerAnswers) (saveReset saveFork : Except String Unit)
    (state : SyncedWallet) : Except BtcError (Nat × SyncedWallet) := do
  let previousBest := state.headers.bestHash
  let (added, staged) ←
    HeaderChain.syncHeaders rules peer.failure peer.batches (0, state.headers)
  let cleared :=
    if state.resetOnSync then state.wallet.resetChainCacheFrom none saveReset else state.wallet
  let resumed := match staged.reorganisation previousBest with
    | none => cleared
    | some fork => cleared.resetChainCacheFrom (some fork) saveFork
  pure (added, {
    headers := staged
    wallet := { resumed with synced := resumed.synced || decide (added > 0) }
    resetOnSync := false })

end SyncedWallet

/-- What can happen to the header chain of a wallet. -/
inductive HeaderEvent where
  | setHeaderRetention (retention : Nat)
  | sync (peer : PeerAnswers) (saveReset saveFork : Except String Unit)

namespace HeaderEvent

def delivered : HeaderEvent → List Header
  | .setHeaderRetention _ => []
  | .sync peer _ _ => peer.batches.flatten

/-- The wallet after an event; a pass that fails leaves it as it was. -/
def perform (rules : HeaderRules) (state : SyncedWallet) : HeaderEvent → SyncedWallet
  | .setHeaderRetention retention =>
      { state with headers := state.headers.setRetention rules retention }
  | .sync peer saveReset saveFork =>
      match state.sync rules peer saveReset saveFork with
      | .ok (_, after) => after
      | .error _ => state

end HeaderEvent

def SyncedWallet.performAll (rules : HeaderRules) (events : List HeaderEvent)
    (state : SyncedWallet) : SyncedWallet :=
  events.foldl (HeaderEvent.perform rules) state

end Btc

end Vtorrent
