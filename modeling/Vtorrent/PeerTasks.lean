import Vtorrent.BlockScheduler
import Vtorrent.PeerWire
import Vtorrent.PieceAssembly
import Vtorrent.PieceStore
import Vtorrent.TorrentSessions

/-!
# The task of a connected peer

The task requests blocks, handles one message after the other, assembles and stores the pieces
it receives, and serves the blocks that the peer requests.  The scheduler, the files and the
session are shared with other tasks, which may change them between two messages.
-/

namespace Vtorrent

open Std FileTree

def maxServedBlock : UInt32 := 32 * 1024
def maxOutstandingPerPeer : Nat := 64
def maxAssemblers : Nat := 5

/-- The time in which a repeated request is dropped, in nanoseconds. -/
def requestDedupeWindow : Nat := 10 * 10 ^ 9

structure BlockRequest where
  index : UInt32
  start : UInt32
  length : UInt32
  deriving DecidableEq

/-- What a task is started with: the torrent, the peer, and the comparison of the share ratio
with a target. -/
structure PeerContext (Target : Type) where
  metainfo : Metainfo
  sha1 : Bytes → ByteVector 20
  remotePeerId : PeerId
  peerKey : String
  enabled : Target → Bool
  reached : UInt64 → UInt64 → Target → Bool

structure SharedState where
  scheduler : SchedulerState
  tree : Tree
  session : Option TorrentSession

structure PeerTask where
  shared : SharedState
  running : Bool
  inFlight : Nat
  assemblers : ExtTreeMap UInt32 PieceAssembler
  servedRequests : List (BlockRequest × Nat)
  outstandingServed : Nat

inductive RequestOutcome
  | badLength
  | duplicate
  | tooMany
  | ratioReached
  | unavailable
  | served (block : Bytes)
  deriving DecidableEq

/-- What one turn of the loop is given: the message, the clocks and the target of the ratio. -/
structure Arrival (Target : Type) where
  message : PeerMessage
  now : Nat
  timestamp : UInt64
  target : Target

inductive PeerEvent (Target : Type)
  | message (arrival : Arrival Target)
  | others (shared : SharedState)
  | cancel

namespace PeerTask

variable {Target : Type} (context : PeerContext Target)

def new (shared : SharedState) : PeerTask := ⟨shared, true, 0, ∅, [], 0⟩

def withTracker (task : PeerTask) (change : PieceTracker → PieceTracker) : PeerTask :=
  { task with shared := { task.shared with
      scheduler := { task.shared.scheduler with
        tracker := change task.shared.scheduler.tracker } } }

def requestBlocks (now : Nat) : Nat → PeerTask → PeerTask
  | 0, task => task
  | room + 1, task =>
      match task.shared.scheduler.nextBlock context.metainfo.pieceLengthAt now now with
      | (none, scheduler) => { task with shared := { task.shared with scheduler := scheduler } }
      | (some _, scheduler) =>
          requestBlocks now room { task with
            shared := { task.shared with scheduler := scheduler }
            inFlight := task.inFlight + 1 }

def ratioReached (task : PeerTask) (target : Target) : Bool :=
  context.enabled target &&
    match task.shared.session with
    | none => false
    | some session => decide (0 < session.bytesDownloaded) &&
        context.reached session.bytesUploaded session.bytesDownloaded target

def readBlock (task : PeerTask) (request : BlockRequest) : Except Abort (Option Bytes) :=
  if task.shared.scheduler.tracker.hasPiece request.index then do
    let piece ← readPieceFromDisk context.metainfo task.shared.tree request.index
    pure (piece.bind fun data =>
      let stop := min (request.start.toNat + request.length.toNat) data.length
      if request.start.toNat ≤ stop then
        some ((data.take stop).drop request.start.toNat)
      else none)
  else .ok none

def recentRequests (task : PeerTask) (now : Nat) : List (BlockRequest × Nat) :=
  task.servedRequests.filter fun entry => decide (now < entry.2)

def isDuplicate (task : PeerTask) (request : BlockRequest) (now : Nat) : Bool :=
  (task.recentRequests now).any fun entry => entry.1 == request

def handleRequest (task : PeerTask) (request : BlockRequest) (now : Nat) (timestamp : UInt64)
    (target : Target) : Except Abort (RequestOutcome × PeerTask) :=
  if request.length == 0 || decide (maxServedBlock < request.length) then
    .ok (.badLength, task)
  else if task.isDuplicate request now then
    .ok (.duplicate, { task with servedRequests := task.recentRequests now })
  else
    let task := { task with
      servedRequests := (request, now + requestDedupeWindow) :: task.recentRequests now }
    if maxOutstandingPerPeer ≤ task.outstandingServed then .ok (.tooMany, task)
    else
      let task := { task with outstandingServed := task.outstandingServed + 1 }
      if ratioReached context task target then .ok (.ratioReached, task)
      else do
        let block ← readBlock context task request
        match block with
        | none =>
            pure (.unavailable, { task with outstandingServed := task.outstandingServed - 1 })
        | some bytes =>
            let session := task.shared.session.map fun session =>
              session.recordUpload context.peerKey (UInt64.ofNat bytes.length) timestamp
            pure (.served bytes, { task with
              shared := { task.shared with session := session }
              outstandingServed := task.outstandingServed - 1 })

/-- A piece that is complete and has the expected hash is stored and counted. -/
def storePiece (task : PeerTask) (index : UInt32) (data : Bytes) (timestamp : UInt64) :
    Except Abort PeerTask := do
  let (written, tree) ← writePieceToDisk context.metainfo task.shared.tree index data
  if written then
    let scheduler := task.shared.scheduler.markHave index
    let verified := scheduler.tracker.haveBytes context.metainfo.pieceLengthAt
    let session := task.shared.session.map fun session =>
      { session.recordDownload context.peerKey (UInt64.ofNat data.length) timestamp with
        bytesDownloaded := verified }
    pure { task with shared := ⟨scheduler, tree, session⟩ }
  else pure { task with shared := { task.shared with tree := tree } }

def stopWhenComplete (task : PeerTask) : PeerTask :=
  { task with running := !task.shared.scheduler.tracker.isComplete }

def handlePiece (task : PeerTask) (index start : UInt32) (data : Bytes) (timestamp : UInt64) :
    Except Abort PeerTask :=
  let task := { task with inFlight := task.inFlight - 1 }
  let held := task.assemblers[index]?
  if held.isNone && decide (maxAssemblers ≤ task.assemblers.size) then .ok task
  else
    let assembler := held.getD (.new (context.metainfo.pieceLengthAt index))
    let assembler := (assembler.addBlock start data).2
    if assembler.isComplete then do
      let stored ← match context.metainfo.pieces[index.toNat]?, assembler.assemble with
        | some expected, some piece =>
            if assembler.verify context.sha1 expected then
              storePiece context task index piece timestamp
            else .ok task
        | _, _ => .ok task
      pure (stopWhenComplete { stored with assemblers := stored.assemblers.erase index })
    else .ok (stopWhenComplete { task with assemblers := task.assemblers.insert index assembler })

/-- One turn of the loop: requests are sent, then a message is handled.  Some messages go on to
the next turn at once, the others check first whether the torrent is complete. -/
def handleMessage (task : PeerTask) (arrival : Arrival Target) :
    Except Abort (Option RequestOutcome × PeerTask) :=
  let task := requestBlocks context arrival.now
    (task.shared.scheduler.maxPipelinedBlocks - task.inFlight) task
  match arrival.message with
  | .bitfield bits => .ok (none, stopWhenComplete
      (task.withTracker fun tracker => tracker.setPeerBitfield context.remotePeerId bits))
  | .havePiece index => .ok (none, stopWhenComplete
      (task.withTracker fun tracker => tracker.setPeerHave context.remotePeerId index))
  | .choke | .interested | .notInterested | .unchoke => .ok (none, task.stopWhenComplete)
  | .request index start length => do
      let (outcome, task) ← handleRequest context task ⟨index, start, length⟩ arrival.now
        arrival.timestamp arrival.target
      match outcome with
      | .unavailable | .served _ => pure (some outcome, task.stopWhenComplete)
      | _ => pure (some outcome, task)
  | .cancel index start _ => .ok (none, stopWhenComplete
      { task with shared := { task.shared with
          scheduler := task.shared.scheduler.clearBlock index start } })
  | .piece index start data => do
      let task ← handlePiece context task index start data arrival.timestamp
      pure (none, task)
  | .handshake _ _ _ | .keepAlive | .port _ | .extended _ _ => .ok (none, task)

def perform (task : PeerTask) (event : PeerEvent Target) :
    Except Abort (Option RequestOutcome × PeerTask) :=
  match event with
  | .message arrival =>
      if task.running then handleMessage context task arrival else .ok (none, task)
  | .others shared => .ok (none, { task with shared := shared })
  | .cancel => .ok (none, { task with running := false })

def performAll : PeerTask → List (PeerEvent Target) → Except Abort PeerTask
  | task, [] => .ok task
  | task, event :: events => do
      let (_, next) ← perform context task event
      performAll next events

end PeerTask

end Vtorrent
