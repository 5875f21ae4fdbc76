import Vtorrent.FiniteMapFilters
import Vtorrent.Primitives

/-!
# The block scheduler of the torrent engine

The tracker knows which pieces we have, which pieces each peer has, and which pieces are
flagged because all their blocks are requested.  A requested block is leased for a while.  The
next block is the first one without a lease of the rarest piece that is wanted and not flagged.
-/

namespace Vtorrent

open Std FiniteMap

def blockLeaseTimeout : Nat := 90 * 10 ^ 9

abbrev PeerId := ByteVector 20

structure PieceTracker where
  pieceCount : UInt32
  haves : List Bool
  requested : List Bool
  peerPieces : ExtTreeMap PeerId (List Bool)

namespace PieceTracker

def new (pieceCount : UInt32) : PieceTracker where
  pieceCount := pieceCount
  haves := List.replicate pieceCount.toNat false
  requested := List.replicate pieceCount.toNat false
  peerPieces := ∅

def hasPiece (tracker : PieceTracker) (index : UInt32) : Bool :=
  tracker.haves.getD index.toNat false

def isRequested (tracker : PieceTracker) (index : UInt32) : Bool :=
  tracker.requested.getD index.toNat false

def markHave (tracker : PieceTracker) (index : UInt32) : PieceTracker :=
  { tracker with
    haves := tracker.haves.set index.toNat true
    requested := tracker.requested.set index.toNat false }

def markRequested (tracker : PieceTracker) (index : UInt32) : PieceTracker :=
  { tracker with requested := tracker.requested.set index.toNat true }

def clearRequested (tracker : PieceTracker) (index : UInt32) : PieceTracker :=
  { tracker with requested := tracker.requested.set index.toNat false }

/-- The bit of a piece in a bitfield, the first piece having the highest bit. -/
def bitOf (bits : Bytes) (index : Nat) : Bool :=
  match bits[index / 8]? with
  | some byte => byte &&& ((0x80 : UInt8) >>> UInt8.ofNat (index % 8)) != 0
  | none => false

def setPeerBitfield (tracker : PieceTracker) (peerId : PeerId) (bits : Bytes) : PieceTracker :=
  { tracker with
    peerPieces := tracker.peerPieces.insert peerId
      ((List.range tracker.pieceCount.toNat).map (bitOf bits)) }

def setPeerHave (tracker : PieceTracker) (peerId : PeerId) (index : UInt32) : PieceTracker :=
  let entry := (tracker.peerPieces[peerId]?).getD
    (List.replicate tracker.pieceCount.toNat false)
  { tracker with peerPieces := tracker.peerPieces.insert peerId (entry.set index.toNat true) }

/-- `is_complete`. -/
def isComplete (tracker : PieceTracker) : Bool := tracker.haves.all id

def haveBytes (tracker : PieceTracker) (pieceLen : UInt32 → Nat) : UInt64 :=
  (tracker.haves.zipIdx.filter Prod.fst).foldl
    (fun sum piece => saturatingAdd sum (UInt64.ofNat (pieceLen (UInt32.ofNat piece.2)))) 0

def peerCountFor (tracker : PieceTracker) (index : UInt32) : Nat :=
  (values tracker.peerPieces).countP fun bits => bits.getD index.toNat false

def indices (tracker : PieceTracker) : List UInt32 :=
  (List.range tracker.pieceCount.toNat).map UInt32.ofNat

def better (tracker : PieceTracker) (best : Option (Nat × UInt32)) (index : UInt32) :
    Option (Nat × UInt32) :=
  if tracker.hasPiece index || tracker.isRequested index then best
  else
    let count := tracker.peerCountFor index
    if count = 0 then best
    else
      match best with
      | none => some (count, index)
      | some (bestCount, _) => if count < bestCount then some (count, index) else best

/-- `next_piece`. -/
def nextPiece (tracker : PieceTracker) : Option UInt32 :=
  (tracker.indices.foldl tracker.better none).map Prod.snd

end PieceTracker

structure SchedulerState where
  tracker : PieceTracker
  blockSize : Nat
  maxPipelinedBlocks : Nat
  requestedBlocks : ExtTreeMap UInt32 (List (UInt32 × Nat))

namespace SchedulerState

def new (pieceCount : UInt32) : SchedulerState := ⟨.new pieceCount, 16 * 1024, 5, ∅⟩

/-- Whether a lease has not expired. -/
def live (now : Nat) (lease : UInt32 × Nat) : Bool := decide (now - lease.2 < blockLeaseTimeout)

/-- `purge_expired_leases`. -/
def purgeExpiredLeases (state : SchedulerState) (now : Nat) : SchedulerState :=
  let expired := (state.requestedBlocks.toList.filter fun entry =>
    (entry.2.filter (live now)).length != entry.2.length).map Prod.fst
  { state with
    requestedBlocks := (state.requestedBlocks.map fun _ leases => leases.filter (live now)).filter
      fun _ leases => !leases.isEmpty
    tracker := expired.foldl PieceTracker.clearRequested state.tracker }

def leases (state : SchedulerState) (piece : UInt32) : List (UInt32 × Nat) :=
  (state.requestedBlocks[piece]?).getD []

/-- Where a block of a piece begins, in the 32 bits of the wire protocol. -/
def blockBegin (state : SchedulerState) (block : Nat) : UInt32 :=
  UInt32.ofNat (block * state.blockSize)

def totalBlocks (state : SchedulerState) (len : Nat) : Nat :=
  (len + state.blockSize - 1) / state.blockSize

def isLeased (state : SchedulerState) (leases : List (UInt32 × Nat)) (block : Nat) : Bool :=
  leases.any fun lease => lease.1 == state.blockBegin block

/-- `next_block`, with the times at which the leases are checked and the new one is made. -/
def nextBlock (state : SchedulerState) (pieceLen : UInt32 → Nat) (now leasedAt : Nat) :
    Option (UInt32 × UInt32 × UInt32) × SchedulerState :=
  let state := state.purgeExpiredLeases now
  match state.tracker.nextPiece with
  | none => (none, state)
  | some piece =>
      let len := pieceLen piece
      let leases := state.leases piece
      match (List.range (state.totalBlocks len)).find? fun block =>
          !state.isLeased leases block with
      | some block =>
          let start := state.blockBegin block
          let blockLen := UInt32.ofNat (min (len - block * state.blockSize) state.blockSize)
          (some (piece, start, blockLen),
            { state with
              requestedBlocks := state.requestedBlocks.insert piece
                (leases ++ [(start, leasedAt)]) })
      | none =>
          (none, { state with
            requestedBlocks := state.requestedBlocks.insert piece leases
            tracker := state.tracker.markRequested piece })

/-- `clear_block`. -/
def clearBlock (state : SchedulerState) (piece start : UInt32) : SchedulerState :=
  match state.requestedBlocks[piece]? with
  | none => state
  | some leases =>
      let kept := leases.filter fun lease => lease.1 != start
      if kept.isEmpty then
        { state with
          requestedBlocks := state.requestedBlocks.erase piece
          tracker := state.tracker.clearRequested piece }
      else { state with requestedBlocks := state.requestedBlocks.insert piece kept }

/-- `mark_have`. -/
def markHave (state : SchedulerState) (index : UInt32) : SchedulerState :=
  { state with
    tracker := state.tracker.markHave index
    requestedBlocks := state.requestedBlocks.erase index }

end SchedulerState

/-! ## The rarest piece -/

namespace PieceTracker

/-- We lack a piece that some peer has. -/
def Wanted (tracker : PieceTracker) (index : UInt32) : Prop :=
  index ∈ tracker.indices ∧ tracker.hasPiece index = false ∧ tracker.peerCountFor index ≠ 0

def Eligible (tracker : PieceTracker) (index : UInt32) : Prop :=
  tracker.Wanted index ∧ tracker.isRequested index = false

/-- The eligible piece with the fewest holders, the first of them. -/
def Rarest (tracker : PieceTracker) (index : UInt32) : Prop :=
  tracker.Eligible index ∧ ∀ other, tracker.Eligible other → other ≠ index →
    tracker.peerCountFor index < tracker.peerCountFor other ∨
      tracker.peerCountFor index = tracker.peerCountFor other ∧ index < other

theorem pairwise_indices (tracker : PieceTracker) : tracker.indices.Pairwise (· < ·) := by
  refine List.pairwise_map.mpr (List.Pairwise.imp_of_mem ?_ List.pairwise_lt_range)
  intro first second member member' order
  rw [List.mem_range] at member member'
  have bound := tracker.pieceCount.toNat_lt
  rw [UInt32.lt_iff_toNat_lt, UInt32.toNat_ofNat_of_lt' (member.trans bound),
    UInt32.toNat_ofNat_of_lt' (member'.trans bound)]
  exact order

theorem better_of_not_eligible {tracker : PieceTracker} {index : UInt32}
    (listed : index ∈ tracker.indices) (other : ¬ tracker.Eligible index)
    (best : Option (Nat × UInt32)) : tracker.better best index = best := by
  unfold better
  split
  · rfl
  · rename_i free
    rw [Bool.or_eq_true, not_or, Bool.not_eq_true, Bool.not_eq_true] at free
    dsimp only
    rw [if_pos]
    by_contra held
    exact other ⟨⟨listed, free.1, held⟩, free.2⟩

theorem better_of_eligible {tracker : PieceTracker} {index : UInt32}
    (eligible : tracker.Eligible index) (best : Option (Nat × UInt32)) :
    tracker.better best index =
      match best with
      | none => some (tracker.peerCountFor index, index)
      | some (bestCount, _) =>
          if tracker.peerCountFor index < bestCount then
            some (tracker.peerCountFor index, index)
          else best := by
  obtain ⟨⟨_, lacked, held⟩, free⟩ := eligible
  unfold better
  rw [lacked, free]
  dsimp only
  rw [if_neg (by decide), if_neg held]

structure RarestOf (tracker : PieceTracker) (indices : List UInt32) (index : UInt32) :
    Prop where
  listed : index ∈ indices
  eligible : tracker.Eligible index
  fewest : ∀ other ∈ indices, tracker.Eligible other → other ≠ index →
    tracker.peerCountFor index < tracker.peerCountFor other ∨
      tracker.peerCountFor index = tracker.peerCountFor other ∧ index < other

theorem foldl_better {tracker : PieceTracker} {indices : List UInt32}
    (sorted : indices.Pairwise (· < ·)) (listed : ∀ index ∈ indices, index ∈ tracker.indices) :
    (indices.foldl tracker.better none = none ∧
        ∀ index ∈ indices, ¬ tracker.Eligible index) ∨
      ∃ index, indices.foldl tracker.better none = some (tracker.peerCountFor index, index) ∧
        tracker.RarestOf indices index := by
  induction indices using List.reverseRecOn with
  | nil => exact Or.inl ⟨rfl, by simp⟩
  | append_singleton indices last ih =>
      obtain ⟨sorted, -, later⟩ := List.pairwise_append.mp sorted
      have last_listed := listed last (by simp)
      specialize ih sorted fun index member => listed index (List.mem_append_left _ member)
      rw [List.foldl_append, List.foldl_cons, List.foldl_nil]
      have extend : ∀ {index}, tracker.RarestOf indices index →
          (tracker.Eligible last → tracker.peerCountFor index ≤ tracker.peerCountFor last) →
          tracker.RarestOf (indices ++ [last]) index := by
        intro index best fewer
        refine ⟨List.mem_append_left _ best.listed, best.eligible, ?_⟩
        intro other member eligible different
        rcases List.mem_append.mp member with member | member
        · exact best.fewest other member eligible different
        · obtain rfl := List.mem_singleton.mp member
          rcases Nat.lt_or_eq_of_le (fewer eligible) with less | same
          · exact Or.inl less
          · exact Or.inr ⟨same, later index best.listed other (by simp)⟩
      by_cases eligible : tracker.Eligible last
      · rw [better_of_eligible eligible]
        right
        rcases ih with ⟨none, nobody⟩ | ⟨index, found, best⟩
        · rw [none]
          refine ⟨last, rfl, by simp, eligible, ?_⟩
          intro other member candidate different
          rcases List.mem_append.mp member with member | member
          · exact absurd candidate (nobody other member)
          · exact absurd (List.mem_singleton.mp member) different
        · rw [found]
          dsimp only
          split
          · rename_i fewer
            refine ⟨last, rfl, by simp, eligible, ?_⟩
            intro other member candidate different
            rcases List.mem_append.mp member with member | member
            · rcases eq_or_ne other index with rfl | elsewhere
              · exact Or.inl fewer
              · have := best.fewest other member candidate elsewhere
                omega
            · exact absurd (List.mem_singleton.mp member) different
          · rename_i more
            exact ⟨index, rfl, extend best fun _ => Nat.not_lt.mp more⟩
      · rw [better_of_not_eligible last_listed eligible]
        rcases ih with ⟨none, nobody⟩ | ⟨index, found, best⟩
        · left
          refine ⟨none, fun index member => ?_⟩
          rcases List.mem_append.mp member with member | member
          · exact nobody index member
          · rwa [List.mem_singleton.mp member]
        · exact Or.inr ⟨index, found, extend best fun candidate => absurd candidate eligible⟩

theorem rarestOf_indices {tracker : PieceTracker} {index : UInt32} :
    tracker.RarestOf tracker.indices index ↔ tracker.Rarest index :=
  ⟨fun best => ⟨best.eligible, fun other eligible => best.fewest other eligible.1.1 eligible⟩,
    fun rarest => ⟨rarest.1.1.1, rarest.1, fun other _ => rarest.2 other⟩⟩

theorem Rarest.unique {tracker : PieceTracker} {first second : UInt32}
    (rarest : tracker.Rarest first) (rarest' : tracker.Rarest second) : first = second := by
  by_contra different
  have less := rarest.2 second rarest'.1 (Ne.symm different)
  have less' := rarest'.2 first rarest.1 different
  have order := fun {a b : UInt32} => @UInt32.lt_iff_toNat_lt a b
  rw [order] at less less'
  omega

theorem nextPiece_eq_some {tracker : PieceTracker} {index : UInt32} :
    tracker.nextPiece = some index ↔ tracker.Rarest index := by
  rw [nextPiece]
  rcases foldl_better tracker.pairwise_indices fun _ member => member with
    ⟨none, nobody⟩ | ⟨best, found, rarest⟩
  · rw [none]
    constructor
    · intro impossible
      cases impossible
    · intro rarest
      exact absurd rarest.1 (nobody index rarest.1.1.1)
  · rw [rarestOf_indices] at rarest
    rw [found, Option.map_some, Option.some.injEq]
    constructor
    · rintro rfl
      exact rarest
    · exact rarest.unique

theorem nextPiece_eq_none {tracker : PieceTracker} :
    tracker.nextPiece = none ↔ ∀ index, ¬ tracker.Eligible index := by
  rw [nextPiece]
  rcases foldl_better tracker.pairwise_indices fun _ member => member with
    ⟨none, nobody⟩ | ⟨best, found, rarest⟩
  · rw [none]
    exact ⟨fun _ index eligible => nobody index eligible.1.1 eligible, fun _ => rfl⟩
  · rw [found]
    constructor
    · intro impossible
      cases impossible
    · intro nobody
      exact absurd rarest.eligible (nobody best)

end PieceTracker

/-! ## Leases -/

namespace PieceTracker

theorem isRequested_clearRequested (tracker : PieceTracker) (index other : UInt32) :
    (tracker.clearRequested index).isRequested other =
      (tracker.isRequested other && other != index) := by
  unfold clearRequested isRequested
  rcases eq_or_ne other index with rfl | different
  · simp [List.getD_eq_getElem?_getD, List.getElem?_set]
    grind
  · have numbers : index.toNat ≠ other.toNat := fun same =>
      different (UInt32.toNat_inj.mp same).symm
    simp [List.getD_eq_getElem?_getD, List.getElem?_set_ne numbers, different]

theorem foldl_clearRequested (pieces : List UInt32) (tracker : PieceTracker) :
    pieces.foldl clearRequested tracker =
      { tracker with requested := (pieces.foldl clearRequested tracker).requested } := by
  induction pieces generalizing tracker with
  | nil => rfl
  | cons piece pieces ih =>
      rw [List.foldl_cons, ih]
      rfl

theorem isRequested_foldl_clearRequested (pieces : List UInt32) (tracker : PieceTracker)
    (index : UInt32) :
    (pieces.foldl clearRequested tracker).isRequested index =
      (tracker.isRequested index && !pieces.contains index) := by
  induction pieces generalizing tracker with
  | nil => simp
  | cons piece pieces ih =>
      rw [List.foldl_cons, ih, isRequested_clearRequested, List.contains_cons]
      cases tracker.isRequested index <;> cases pieces.contains index <;>
        simp [bne]

end PieceTracker

namespace SchedulerState

variable {state : SchedulerState} {pieceLen : UInt32 → Nat} {now leasedAt : Nat}

theorem tracker_purge (state : SchedulerState) (now : Nat) :
    (state.purgeExpiredLeases now).tracker =
      { state.tracker with
        requested := (state.purgeExpiredLeases now).tracker.requested } :=
  PieceTracker.foldl_clearRequested _ _

theorem leases_purge (state : SchedulerState) (now : Nat) (piece : UInt32) :
    (state.purgeExpiredLeases now).leases piece = (state.leases piece).filter (live now) := by
  unfold leases purgeExpiredLeases
  dsimp only
  rw [getElem?_filter, ExtTreeMap.getElem?_map]
  cases state.requestedBlocks[piece]? with
  | none => rfl
  | some leases => cases kept : leases.filter (live now) <;> simp [kept, Option.filter]

theorem isRequested_purge (state : SchedulerState) (now : Nat) (piece : UInt32) :
    (state.purgeExpiredLeases now).tracker.isRequested piece =
      (state.tracker.isRequested piece && (state.leases piece).all (live now)) := by
  have expired : ((state.requestedBlocks.toList.filter fun entry =>
      (entry.2.filter (live now)).length != entry.2.length).map Prod.fst).contains piece =
      !(state.leases piece).all (live now) := by
    have kept : ∀ held : List (UInt32 × Nat),
        ((held.filter (live now)).length != held.length) = !held.all (live now) := by
      intro held
      rw [Bool.eq_iff_iff, bne_iff_ne, Ne, List.length_filter_eq_length_iff, Bool.not_eq_true',
        ← Bool.not_eq_true, List.all_eq_true]
    simp only [kept]
    rw [Bool.eq_iff_iff, List.contains_iff_mem, List.mem_map]
    constructor
    · rintro ⟨⟨_, held⟩, member, rfl⟩
      obtain ⟨listed, some_expired⟩ := List.mem_filter.mp member
      rw [ExtTreeMap.mem_toList_iff_getElem?_eq_some] at listed
      rwa [leases, listed]
    · intro some_expired
      cases listed : state.requestedBlocks[piece]? with
      | none => simp [leases, listed] at some_expired
      | some held =>
          rw [leases, listed] at some_expired
          exact ⟨(piece, held), List.mem_filter.mpr
            ⟨ExtTreeMap.mem_toList_iff_getElem?_eq_some.mpr listed, some_expired⟩, rfl⟩
  unfold purgeExpiredLeases
  dsimp only
  rw [PieceTracker.isRequested_foldl_clearRequested, expired, Bool.not_not]

/-- The piece has a lease for a block that has not expired. -/
def Leased (state : SchedulerState) (now : Nat) (piece start : UInt32) : Prop :=
  ∃ lease ∈ state.leases piece, live now lease = true ∧ lease.1 = start

theorem isLeased_purge {piece : UInt32} {block : Nat} :
    (state.purgeExpiredLeases now).isLeased ((state.purgeExpiredLeases now).leases piece)
      block = true ↔ state.Leased now piece (state.blockBegin block) := by
  rw [leases_purge, isLeased, List.any_eq_true]
  constructor
  · rintro ⟨lease, member, same⟩
    obtain ⟨member, alive⟩ := List.mem_filter.mp member
    exact ⟨lease, member, alive, beq_iff_eq.mp same⟩
  · rintro ⟨lease, member, alive, same⟩
    exact ⟨lease, List.mem_filter.mpr ⟨member, alive⟩, beq_iff_eq.mpr same⟩

/-- Every block of a piece is leased. -/
def FullyLeased (state : SchedulerState) (now : Nat) (pieceLen : UInt32 → Nat)
    (piece : UInt32) : Prop :=
  ∀ block < state.totalBlocks (pieceLen piece),
    state.Leased now piece (state.blockBegin block)

theorem nextBlock_eq_some {piece start length : UInt32} {next : SchedulerState}
    (found : state.nextBlock pieceLen now leasedAt = (some (piece, start, length), next)) :
    (state.purgeExpiredLeases now).tracker.Rarest piece ∧
    ∃ block < state.totalBlocks (pieceLen piece),
      start = state.blockBegin block ∧
      length = UInt32.ofNat (min (pieceLen piece - block * state.blockSize) state.blockSize) ∧
      ¬ state.Leased now piece start ∧
      ∀ earlier < block, state.Leased now piece (state.blockBegin earlier) := by
  unfold nextBlock at found
  dsimp only at found
  split at found
  · cases found
  · rename_i chosen picked
    split at found
    · rename_i block first
      obtain ⟨same, -⟩ := Prod.mk.inj found
      obtain ⟨rfl, rfl, rfl⟩ : chosen = piece ∧ _ = start ∧ _ = length := by
        simpa using same
      obtain ⟨free, inside, before⟩ := List.find?_range_eq_some.mp first
      refine ⟨PieceTracker.nextPiece_eq_some.mp picked, block, List.mem_range.mp inside, rfl, rfl,
        ?_, ?_⟩
      · rw [Bool.not_eq_true', ← Bool.not_eq_true, isLeased_purge] at free
        exact free
      · intro earlier order
        have held := before earlier order
        rw [Bool.not_not, isLeased_purge] at held
        exact held
    · cases found

theorem nextBlock_eq_none :
    (state.nextBlock pieceLen now leasedAt).1 = none ↔
      ∀ piece, (state.purgeExpiredLeases now).tracker.Rarest piece →
        state.FullyLeased now pieceLen piece := by
  unfold nextBlock
  dsimp only
  cases picked : (state.purgeExpiredLeases now).tracker.nextPiece with
  | none =>
      refine ⟨fun _ piece rarest => ?_, fun _ => rfl⟩
      exact absurd rarest.1 (PieceTracker.nextPiece_eq_none.mp picked piece)
  | some chosen =>
      have rarest := PieceTracker.nextPiece_eq_some.mp picked
      dsimp only
      cases first : (List.range ((state.purgeExpiredLeases now).totalBlocks
          (pieceLen chosen))).find? fun block => !(state.purgeExpiredLeases now).isLeased
            ((state.purgeExpiredLeases now).leases chosen) block with
      | some block =>
          constructor
          · intro impossible
            cases impossible
          · intro full
            have free := List.find?_some first
            rw [Bool.not_eq_true', ← Bool.not_eq_true, isLeased_purge] at free
            exact absurd (full chosen rarest block
              (List.mem_range.mp (List.mem_of_find?_eq_some first))) free
      | none =>
          refine ⟨fun _ piece rarest' block inside => ?_, fun _ => rfl⟩
          obtain rfl := rarest.unique rarest'
          have held := List.find?_eq_none.mp first block (List.mem_range.mpr inside)
          rw [Bool.not_eq_true', Bool.not_eq_false, isLeased_purge] at held
          exact held

end SchedulerState

end Vtorrent
