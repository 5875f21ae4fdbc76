import Vtorrent.BlockScheduler
import Vtorrent.ListWindows

/-!
# Requests over a run of the scheduler

The leases are the blocks that were handed out and not released since.  The blocks that are
handed out tile the pieces, each is free when it is handed out, and it belongs to the rarest
piece.  That no block is handed out means that all wanted blocks are
leased only as long as the flags of pieces agree with the leases of their blocks.
-/

namespace Vtorrent

open Std FiniteMap ListWindow

inductive SchedulerEvent
  | bitfield (peerId : PeerId) (bits : Bytes)
  | peerHave (peerId : PeerId) (index : UInt32)
  | nextBlock (now leasedAt : Nat)
  | clearBlock (piece start : UInt32)
  | markHave (index : UInt32)

namespace SchedulerState

section Runs

variable (pieceLen : UInt32 → Nat)

def perform (state : SchedulerState) : SchedulerEvent → SchedulerState
  | .bitfield peerId bits =>
      { state with tracker := state.tracker.setPeerBitfield peerId bits }
  | .peerHave peerId index =>
      { state with tracker := state.tracker.setPeerHave peerId index }
  | .nextBlock now leasedAt => (state.nextBlock pieceLen now leasedAt).2
  | .clearBlock piece start => state.clearBlock piece start
  | .markHave index => state.markHave index

def performAll (state : SchedulerState) (events : List SchedulerEvent) : SchedulerState :=
  events.foldl (perform pieceLen) state

theorem blockSize_nextBlock (state : SchedulerState) (now leasedAt : Nat) :
    (state.nextBlock pieceLen now leasedAt).2.blockSize = state.blockSize := by
  unfold nextBlock
  dsimp only
  split
  · rfl
  · split <;> rfl

theorem blockSize_clearBlock (state : SchedulerState) (piece start : UInt32) :
    (state.clearBlock piece start).blockSize = state.blockSize := by
  unfold clearBlock
  split
  · rfl
  · dsimp only
    split <;> rfl

theorem blockSize_perform (state : SchedulerState) (event : SchedulerEvent) :
    (state.perform pieceLen event).blockSize = state.blockSize := by
  cases event with
  | bitfield | peerHave | markHave => rfl
  | nextBlock now leasedAt => exact blockSize_nextBlock pieceLen state now leasedAt
  | clearBlock piece start => exact blockSize_clearBlock state piece start

theorem blockSize_performAll (state : SchedulerState) (events : List SchedulerEvent) :
    (state.performAll pieceLen events).blockSize = state.blockSize := by
  induction events generalizing state with
  | nil => rfl
  | cons event events ih => exact (ih _).trans (blockSize_perform pieceLen state event)

end Runs

/-- The blocks of a piece: where each begins and how long it is. -/
def blocksOf (state : SchedulerState) (len : Nat) : List (Nat × Nat) :=
  (List.range (state.totalBlocks len)).map fun block =>
    (block * state.blockSize, min (len - block * state.blockSize) state.blockSize)

/-- The blocks of a piece follow each other from its first byte to its last. -/
theorem blocksOf_tile {state : SchedulerState} (positive : 0 < state.blockSize) (len : Nat) :
    (state.blocksOf len).flatMap (fun block => List.range' block.1 block.2) =
      List.range' 0 len := by
  have block : ∀ number, List.range' (number * state.blockSize)
      (min (len - number * state.blockSize) state.blockSize) =
      window (number * state.blockSize) ((number + 1) * state.blockSize)
        (List.range' 0 len) := by
    intro number
    rw [window_range', Nat.add_mul]
    congr 1
    omega
  have whole : len ≤ state.totalBlocks len * state.blockSize := by
    have := Nat.lt_div_mul_add (a := len + state.blockSize - 1) positive
    unfold totalBlocks
    omega
  rw [blocksOf, List.flatMap_map]
  simp only [block]
  rw [flatMap_window, window_zero (by rwa [List.length_range'])]

theorem mul_lt_of_lt_totalBlocks {state : SchedulerState} (positive : 0 < state.blockSize)
    {len block : Nat} (inside : block < state.totalBlocks len) :
    block * state.blockSize < len := by
  have enough := (Nat.le_div_iff_mul_le positive).mp (Nat.succ_le_of_lt inside)
  rw [Nat.succ_mul] at enough
  omega

theorem wanted_purge {state : SchedulerState} {now : Nat} {piece : UInt32} :
    (state.purgeExpiredLeases now).tracker.Wanted piece ↔ state.tracker.Wanted piece := by
  rw [tracker_purge]
  exact Iff.rfl

theorem peerCountFor_purge (state : SchedulerState) (now : Nat) (piece : UInt32) :
    (state.purgeExpiredLeases now).tracker.peerCountFor piece =
      state.tracker.peerCountFor piece := by
  rw [tracker_purge]
  rfl

/-! ## Blocks that are handed out -/

def Releases (piece start : UInt32) (leasedAt : Nat) : SchedulerEvent → Prop
  | .nextBlock now _ => live now (start, leasedAt) = false
  | .clearBlock piece' start' => piece' = piece ∧ start' = start
  | .markHave index => index = piece
  | .bitfield _ _ | .peerHave _ _ => False

/-- The block was handed out in the run, and no later event released it. -/
def HandedOut (pieceLen : UInt32 → Nat) (state : SchedulerState) (events : List SchedulerEvent)
    (piece start length : UInt32) (leasedAt : Nat) : Prop :=
  ∃ early now late, events = early ++ .nextBlock now leasedAt :: late ∧
    ((state.performAll pieceLen early).nextBlock pieceLen now leasedAt).1 =
      some (piece, start, length) ∧
    ∀ event ∈ late, ¬ Releases piece start leasedAt event

section Leases

variable {pieceLen : UInt32 → Nat} {state : SchedulerState} {piece start : UInt32}

theorem leases_insert (state : SchedulerState) (tracker : PieceTracker) (piece other : UInt32)
    (held : List (UInt32 × Nat)) :
    leases { state with
      tracker := tracker
      requestedBlocks := state.requestedBlocks.insert piece held } other =
      if other = piece then held else state.leases other := by
  unfold leases
  split
  · subst other
    rw [ExtTreeMap.getElem?_insert_self]
    rfl
  · rename_i different
    rw [getElem?_insert_of_ne different]

theorem leases_erase (state : SchedulerState) (tracker : PieceTracker) (piece other : UInt32) :
    leases { state with
      tracker := tracker
      requestedBlocks := state.requestedBlocks.erase piece } other =
      if other = piece then [] else state.leases other := by
  unfold leases
  split
  · subst other
    rw [ExtTreeMap.getElem?_erase_self]
    rfl
  · rename_i different
    rw [getElem?_erase_of_ne different]

theorem mem_leases_nextBlock (now leasedAt time : Nat) :
    (start, time) ∈ (state.nextBlock pieceLen now leasedAt).2.leases piece ↔
      ((start, time) ∈ state.leases piece ∧ live now (start, time) = true) ∨
        time = leasedAt ∧ ∃ length,
          (state.nextBlock pieceLen now leasedAt).1 = some (piece, start, length) := by
  have purged := leases_purge state now piece
  unfold SchedulerState.nextBlock
  dsimp only
  split
  · simp [purged]
  · rename_i chosen picked
    split
    · rename_i block free
      rw [leases_insert]
      split
      · rename_i here
        subst here
        simp only [purged, List.mem_append, List.mem_filter, List.mem_singleton, Prod.mk.injEq,
          Option.some.injEq, true_and]
        refine or_congr_right ⟨?_, ?_⟩
        · rintro ⟨rfl, rfl⟩
          exact ⟨rfl, _, rfl, rfl⟩
        · rintro ⟨rfl, -, rfl, -⟩
          exact ⟨rfl, rfl⟩
      · rename_i elsewhere
        simp [purged, Ne.symm elsewhere]
    · rw [leases_insert]
      split
      · rename_i here
        subst here
        simp [purged]
      · simp [purged]

theorem mem_leases_clearBlock (cleared from_ : UInt32) (time : Nat) :
    (start, time) ∈ (state.clearBlock cleared from_).leases piece ↔
      (start, time) ∈ state.leases piece ∧ ¬ (cleared = piece ∧ from_ = start) := by
  unfold SchedulerState.clearBlock
  split
  · rename_i absent
    constructor
    · intro listed
      refine ⟨listed, ?_⟩
      rintro ⟨rfl, -⟩
      rw [leases, absent] at listed
      cases listed
    · exact And.left
  · rename_i held known
    have listed : state.leases cleared = held := by rw [leases, known]; rfl
    dsimp only
    split
    · rename_i nothing
      rw [List.isEmpty_iff, List.filter_eq_nil_iff] at nothing
      rw [leases_erase]
      split
      · rename_i here
        subst here
        rw [listed]
        refine iff_of_false (by simp) ?_
        rintro ⟨member, different⟩
        exact nothing _ member (bne_iff_ne.mpr fun same => different ⟨rfl, same.symm⟩)
      · rename_i elsewhere
        simp [Ne.symm elsewhere]
    · rw [leases_insert]
      split
      · rename_i here
        subst here
        rw [listed, List.mem_filter, bne_iff_ne]
        simp [eq_comm]
      · rename_i elsewhere
        simp [Ne.symm elsewhere]

theorem mem_leases_markHave (index : UInt32) (time : Nat) :
    (start, time) ∈ (state.markHave index).leases piece ↔
      (start, time) ∈ state.leases piece ∧ ¬ index = piece := by
  unfold SchedulerState.markHave
  rw [leases_erase]
  split
  · rename_i here
    simp [here]
  · rename_i elsewhere
    simp [Ne.symm elsewhere]

theorem mem_leases_perform (event : SchedulerEvent) (time : Nat) :
    (start, time) ∈ (state.perform pieceLen event).leases piece ↔
      ((start, time) ∈ state.leases piece ∧ ¬ Releases piece start time event) ∨
        ∃ now length, event = .nextBlock now time ∧
          (state.nextBlock pieceLen now time).1 = some (piece, start, length) := by
  cases event with
  | bitfield | peerHave => simp [SchedulerState.perform, Releases, leases]
  | nextBlock now leasedAt =>
      rw [SchedulerState.perform, mem_leases_nextBlock, Releases, Bool.not_eq_false]
      refine or_congr_right ⟨?_, ?_⟩
      · rintro ⟨rfl, length, found⟩
        exact ⟨now, length, rfl, found⟩
      · rintro ⟨_, length, same, found⟩
        cases same
        exact ⟨rfl, length, found⟩
  | clearBlock cleared from_ => simp [SchedulerState.perform, Releases, mem_leases_clearBlock]
  | markHave index => simp [SchedulerState.perform, Releases, mem_leases_markHave]

theorem mem_leases_performAll (pieceCount : UInt32) (events : List SchedulerEvent) (time : Nat) :
    (start, time) ∈ ((new pieceCount).performAll pieceLen events).leases piece ↔
      ∃ length, HandedOut pieceLen (new pieceCount) events piece start length time := by
  induction events using List.reverseRecOn with
  | nil =>
      refine iff_of_false (by simp [performAll, new, leases]) ?_
      rintro ⟨length, early, now, late, impossible, -⟩
      simp at impossible
  | append_singleton events event ih =>
      rw [performAll, List.foldl_append, List.foldl_cons, List.foldl_nil, ← performAll,
        mem_leases_perform, ih]
      constructor
      · rintro (⟨⟨length, early, now, late, rfl, found, kept⟩, spared⟩ | ⟨now, length, rfl, found⟩)
        · refine ⟨length, early, now, late ++ [event], by simp, found, ?_⟩
          intro other member
          rcases List.mem_append.mp member with member | member
          · exact kept other member
          · rwa [List.mem_singleton.mp member]
        · exact ⟨length, events, now, [], rfl, found, by simp⟩
      · rintro ⟨length, early, now, late, split, found, kept⟩
        rcases List.eq_nil_or_concat late with rfl | ⟨late, last, rfl⟩
        · obtain ⟨rfl, same⟩ := List.append_inj' split rfl
          exact .inr ⟨now, length, List.singleton_inj.mp same, found⟩
        · rw [List.concat_eq_append, ← List.cons_append, ← List.append_assoc] at split
          obtain ⟨rfl, same⟩ := List.append_inj' split rfl
          rw [List.singleton_inj.mp same]
          exact .inl ⟨⟨length, early, now, late, rfl, found, fun other member =>
            kept other (by simp [member])⟩, kept last (by simp)⟩

end Leases

section Blocks

variable {pieceLen : UInt32 → Nat} {state : SchedulerState} {now leasedAt : Nat}
  {piece start length : UInt32}

theorem placed_of_nextBlock (small : ∀ piece, pieceLen piece ≤ 2 ^ 32)
    (size : state.blockSize = 16384)
    (found : (state.nextBlock pieceLen now leasedAt).1 = some (piece, start, length)) :
    ∃ block < state.totalBlocks (pieceLen piece), start.toNat = block * 16384 ∧
      length.toNat = min (pieceLen piece - block * 16384) 16384 := by
  obtain ⟨-, block, inside, rfl, rfl, -⟩ := nextBlock_eq_some (Prod.ext found rfl)
  have room := mul_lt_of_lt_totalBlocks (by omega) inside
  have limit := small piece
  have words : UInt32.size = 4294967296 := rfl
  refine ⟨block, inside, ?_, ?_⟩
  · rw [blockBegin, UInt32.toNat_ofNat_of_lt' (by omega), size]
  · rw [UInt32.toNat_ofNat_of_lt' (by omega), size]

theorem HandedOut.placed {pieceCount : UInt32} {events : List SchedulerEvent}
    (small : ∀ piece, pieceLen piece ≤ 2 ^ 32)
    (given : HandedOut pieceLen (new pieceCount) events piece start length leasedAt) :
    ∃ block, start.toNat = block * 16384 ∧
      length.toNat = min (pieceLen piece - block * 16384) 16384 := by
  obtain ⟨early, time, -, -, handed, -⟩ := given
  obtain ⟨block, -, placed⟩ := placed_of_nextBlock small
    (blockSize_performAll pieceLen (new pieceCount) early) handed
  exact ⟨block, placed⟩

theorem rarest_of_nextBlock
    (found : (state.nextBlock pieceLen now leasedAt).1 = some (piece, start, length)) :
    state.tracker.Wanted piece ∧
      (state.purgeExpiredLeases now).tracker.isRequested piece = false ∧
      ∀ other, state.tracker.Wanted other →
        (state.purgeExpiredLeases now).tracker.isRequested other = false →
          state.tracker.peerCountFor piece ≤ state.tracker.peerCountFor other := by
  obtain ⟨⟨⟨wanted, free⟩, fewest⟩, -⟩ := nextBlock_eq_some (Prod.ext found rfl)
  refine ⟨wanted_purge.mp wanted, free, fun other wanted' free' => ?_⟩
  rcases eq_or_ne other piece with rfl | different
  · exact le_rfl
  · have order := fewest other ⟨wanted_purge.mpr wanted', free'⟩ different
    rw [peerCountFor_purge, peerCountFor_purge] at order
    omega

theorem earlier_leased_of_nextBlock (small : ∀ piece, pieceLen piece ≤ 2 ^ 32)
    (positive : 0 < state.blockSize)
    (found : (state.nextBlock pieceLen now leasedAt).1 = some (piece, start, length)) :
    ∀ block ∈ state.blocksOf (pieceLen piece), block.1 < start.toNat →
      ∃ lease, state.Leased now piece lease ∧ lease.toNat = block.1 := by
  obtain ⟨-, block, inside, rfl, -, -, earlier⟩ := nextBlock_eq_some (Prod.ext found rfl)
  have begins : ∀ {block}, block < state.totalBlocks (pieceLen piece) →
      (state.blockBegin block).toNat = block * state.blockSize := fun inside =>
    UInt32.toNat_ofNat_of_lt'
      ((mul_lt_of_lt_totalBlocks positive inside).trans_le (small piece))
  intro other member before
  obtain ⟨number, listed, rfl⟩ := List.mem_map.mp member
  rw [begins inside] at before
  exact ⟨_, earlier number (Nat.lt_of_mul_lt_mul_right before),
    begins (List.mem_range.mp listed)⟩

theorem apart_of_ne {first second : Nat} (different : first ≠ second) (len : Nat) :
    first * 16384 + min (len - first * 16384) 16384 ≤ second * 16384 ∨
      second * 16384 + min (len - second * 16384) 16384 ≤ first * 16384 := by
  rcases Nat.lt_or_gt_of_ne different with before | after
  · left
    omega
  · right
    omega

end Blocks

/-- Every block handed out over a run belongs to the rarest wanted piece without a flag, has no
live lease, and is one of the blocks that tile the piece, those before it being leased.  It is
leased afterwards; the leases are the blocks handed out and not released since, and a block that
was handed out before and not released has no byte in common with it. -/
theorem handed_out_blocks {pieceLen : UInt32 → Nat} (small : ∀ piece, pieceLen piece ≤ 2 ^ 32)
    (pieceCount : UInt32) (events : List SchedulerEvent) {now leasedAt : Nat}
    {piece start length : UInt32} {next : SchedulerState}
    (found : ((new pieceCount).performAll pieceLen events).nextBlock pieceLen now leasedAt =
      (some (piece, start, length), next)) :
    let state := (new pieceCount).performAll pieceLen events
    let unexpired := (state.purgeExpiredLeases now).tracker
    (state.tracker.Wanted piece ∧ unexpired.isRequested piece = false ∧
      ∀ other, state.tracker.Wanted other → unexpired.isRequested other = false →
        state.tracker.peerCountFor piece ≤ state.tracker.peerCountFor other) ∧
    ¬ state.Leased now piece start ∧
    (start.toNat, length.toNat) ∈ state.blocksOf (pieceLen piece) ∧
    (∀ block ∈ state.blocksOf (pieceLen piece), block.1 < start.toNat →
      ∃ lease, state.Leased now piece lease ∧ lease.toNat = block.1) ∧
    (state.blocksOf (pieceLen piece)).flatMap (fun block => List.range' block.1 block.2) =
      List.range' 0 (pieceLen piece) ∧
    (start, leasedAt) ∈ next.leases piece ∧
    (∀ other start' time, (start', time) ∈ state.leases other ↔
      ∃ length', HandedOut pieceLen (new pieceCount) events other start' length' time) ∧
    ∀ start' length' time, HandedOut pieceLen (new pieceCount) events piece start' length' time →
      live now (start', time) = true →
        start'.toNat + length'.toNat ≤ start.toNat ∨
          start.toNat + length.toNat ≤ start'.toNat := by
  have size : ((new pieceCount).performAll pieceLen events).blockSize = 16384 :=
    blockSize_performAll pieceLen (new pieceCount) events
  have runs := fun other start' =>
    @mem_leases_performAll pieceLen other start' pieceCount events
  generalize (new pieceCount).performAll pieceLen events = state at found size runs
  have positive : 0 < state.blockSize := by omega
  have handed := congrArg Prod.fst found
  obtain ⟨number, within, starts, ends⟩ := placed_of_nextBlock small size handed
  obtain ⟨-, -, -, -, -, unleased, -⟩ := nextBlock_eq_some found
  refine ⟨rarest_of_nextBlock handed, unleased, ?_,
    earlier_leased_of_nextBlock small positive handed, blocksOf_tile positive _, ?_, runs, ?_⟩
  · rw [starts, ends, ← size]
    exact List.mem_map_of_mem (List.mem_range.mpr within)
  · have leased := (@mem_leases_nextBlock pieceLen state piece start now leasedAt leasedAt).mpr
      (.inr ⟨rfl, length, handed⟩)
    rwa [found] at leased
  · intro start' length' time given alive
    obtain ⟨other, starts', ends'⟩ := given.placed small
    have different : other ≠ number := by
      rintro rfl
      refine unleased ⟨(start', time), (runs _ _ _).mpr ⟨length', given⟩, alive,
        UInt32.toNat_inj.mp ?_⟩
      rw [starts', starts]
    rw [starts, ends, starts', ends']
    exact apart_of_ne different _

namespace Sample

/-- A peer that has the first eight pieces. -/
def seeder : SchedulerEvent := .bitfield (List.Vector.replicate 20 1) [0xff]

/-- Two of the three blocks of a piece are handed out, and the first is released. -/
def oneReleased : List SchedulerEvent :=
  [seeder, .nextBlock 0 0, .nextBlock 1 1, .clearBlock 0 0]

end Sample

open Sample in
/-- The released block is handed out once more, and does not meet the one that is still out. -/
theorem released_block_handed_out :
    let state := (new 1).performAll (fun _ => 40000) oneReleased
    (state.nextBlock (fun _ => 40000) 2 2).1 = some (0, 0, 16384) ∧ ¬ state.Leased 2 0 0 ∧
      (0, 2) ∈ (state.nextBlock (fun _ => 40000) 2 2).2.leases 0 ∧
      HandedOut (fun _ => 40000) (new 1) oneReleased 0 16384 16384 1 ∧
      ((16384 : UInt32).toNat + (16384 : UInt32).toNat ≤ (0 : UInt32).toNat ∨
        (0 : UInt32).toNat + (16384 : UInt32).toNat ≤ (16384 : UInt32).toNat) := by
  have found : (((new 1).performAll (fun _ => 40000) oneReleased).nextBlock
      (fun _ => 40000) 2 2).1 = some (0, 0, 16384) := by decide +kernel
  have second : HandedOut (fun _ => 40000) (new 1) oneReleased 0 16384 16384 1 :=
    ⟨[seeder, .nextBlock 0 0], 1, [.clearBlock 0 0], rfl, by decide +kernel,
      by simp [Releases]⟩
  obtain ⟨-, free, -, -, -, leased, -, apart⟩ := handed_out_blocks (fun _ => by decide) 1
    oneReleased (Prod.ext found rfl)
  exact ⟨found, free, leased, second, apart 16384 16384 1 second (by decide)⟩

/-! ## Flags and leases -/

section Flags

variable {pieceLen : UInt32 → Nat} {state : SchedulerState}

def FlagsAgree (pieceLen : UInt32 → Nat) (state : SchedulerState) : Prop :=
  ∀ piece, state.tracker.isRequested piece = true →
    ∀ block < state.totalBlocks (pieceLen piece),
      ∃ lease ∈ state.leases piece, lease.1 = state.blockBegin block

/-- A flagged piece loses all its leases at once or none. -/
def ReleasesWhole (state : SchedulerState) : SchedulerEvent → Prop
  | .clearBlock piece start => state.tracker.isRequested piece = true →
      (∀ lease ∈ state.leases piece, lease.1 = start) ∨
        ∀ lease ∈ state.leases piece, lease.1 ≠ start
  | _ => True

/-- Every step of a run releases the leases of flagged pieces as a whole. -/
def AllReleaseWhole (pieceLen : UInt32 → Nat) : SchedulerState → List SchedulerEvent → Prop
  | _, [] => True
  | state, event :: events =>
      state.ReleasesWhole event ∧ AllReleaseWhole pieceLen (state.perform pieceLen event) events

theorem isRequested_set_true {tracker : PieceTracker} {piece other : UInt32}
    (flagged : (tracker.markRequested piece).isRequested other = true) :
    other = piece ∨ tracker.isRequested other = true := by
  by_contra neither
  rw [not_or] at neither
  have numbers : piece.toNat ≠ other.toNat := fun same =>
    neither.1 (UInt32.toNat_inj.mp same).symm
  refine neither.2 ?_
  unfold PieceTracker.markRequested PieceTracker.isRequested at flagged
  rwa [List.getD_eq_getElem?_getD, List.getElem?_set_ne numbers,
    ← List.getD_eq_getElem?_getD] at flagged

theorem FlagsAgree.purge (agree : FlagsAgree pieceLen state) (now : Nat) :
    FlagsAgree pieceLen (state.purgeExpiredLeases now) := by
  intro piece flagged block inside
  rw [isRequested_purge, Bool.and_eq_true, List.all_eq_true] at flagged
  obtain ⟨lease, member, same⟩ := agree piece flagged.1 block inside
  refine ⟨lease, ?_, same⟩
  rw [leases_purge]
  exact List.mem_filter.mpr ⟨member, flagged.2 lease member⟩

theorem FlagsAgree.nextBlock (agree : FlagsAgree pieceLen state) (now leasedAt : Nat) :
    FlagsAgree pieceLen (state.nextBlock pieceLen now leasedAt).2 := by
  have purged := agree.purge now
  unfold SchedulerState.nextBlock
  dsimp only
  split
  · exact purged
  · rename_i chosen picked
    split
    · intro piece flagged block inside
      obtain ⟨lease, member, same⟩ := purged piece flagged block inside
      rw [leases_insert]
      split
      · rename_i here
        subst here
        exact ⟨lease, List.mem_append_left _ member, same⟩
      · exact ⟨lease, member, same⟩
    · rename_i all
      intro piece flagged block inside
      rw [leases_insert]
      split
      · rename_i here
        subst here
        have held := List.find?_eq_none.mp all block (List.mem_range.mpr inside)
        rw [Bool.not_eq_true', Bool.not_eq_false, isLeased, List.any_eq_true] at held
        obtain ⟨lease, member, same⟩ := held
        exact ⟨lease, member, beq_iff_eq.mp same⟩
      · rename_i elsewhere
        exact purged piece ((isRequested_set_true flagged).resolve_left elsewhere) block inside

theorem FlagsAgree.clearBlock {piece start : UInt32} (agree : FlagsAgree pieceLen state)
    (whole : state.ReleasesWhole (.clearBlock piece start)) :
    FlagsAgree pieceLen (state.clearBlock piece start) := by
  unfold SchedulerState.clearBlock
  split
  · exact agree
  · rename_i held known
    have listed : state.leases piece = held := by rw [leases, known]; rfl
    dsimp only
    split
    · intro other flagged block inside
      rw [PieceTracker.isRequested_clearRequested, Bool.and_eq_true, bne_iff_ne] at flagged
      rw [leases_erase, if_neg flagged.2]
      exact agree other flagged.1 block inside
    · rename_i remaining
      intro other flagged block inside
      rw [leases_insert]
      split
      · rename_i here
        subst here
        obtain ⟨lease, member, same⟩ := agree other flagged block inside
        rw [listed] at member
        refine ⟨lease, List.mem_filter.mpr ⟨member, bne_iff_ne.mpr ?_⟩, same⟩
        rcases whole flagged with all | nothing
        · refine absurd ?_ remaining
          rw [listed] at all
          simp only [List.isEmpty_iff, List.filter_eq_nil_iff, bne_iff_ne, ne_eq, not_not]
          exact all
        · exact nothing lease (listed ▸ member)
      · exact agree other flagged block inside

theorem FlagsAgree.markHave (agree : FlagsAgree pieceLen state) (index : UInt32) :
    FlagsAgree pieceLen (state.markHave index) := by
  intro piece flagged block inside
  have cleared : (state.tracker.clearRequested index).isRequested piece = true := flagged
  rw [PieceTracker.isRequested_clearRequested, Bool.and_eq_true, bne_iff_ne] at cleared
  unfold SchedulerState.markHave
  rw [leases_erase, if_neg cleared.2]
  exact agree piece cleared.1 block inside

theorem FlagsAgree.perform {event : SchedulerEvent} (agree : FlagsAgree pieceLen state)
    (whole : state.ReleasesWhole event) : FlagsAgree pieceLen (state.perform pieceLen event) := by
  cases event with
  | bitfield | peerHave => exact agree
  | nextBlock now leasedAt => exact agree.nextBlock now leasedAt
  | clearBlock piece start => exact agree.clearBlock whole
  | markHave index => exact agree.markHave index

theorem FlagsAgree.performAll {events : List SchedulerEvent}
    (agree : FlagsAgree pieceLen state) (whole : state.AllReleaseWhole pieceLen events) :
    FlagsAgree pieceLen (state.performAll pieceLen events) := by
  induction events generalizing state with
  | nil => exact agree
  | cons event events ih => exact ih (agree.perform whole.1) whole.2

theorem flagsAgree_new (pieceLen : UInt32 → Nat) (pieceCount : UInt32) :
    FlagsAgree pieceLen (new pieceCount) := by
  intro piece flagged
  have free : (PieceTracker.new pieceCount).isRequested piece = false := by
    unfold PieceTracker.new PieceTracker.isRequested
    rw [List.getD_eq_getElem?_getD, List.getElem?_replicate]
    split <;> rfl
  rw [show (new pieceCount).tracker = PieceTracker.new pieceCount from rfl, free] at flagged
  cases flagged

theorem FlagsAgree.fullyLeased {now : Nat} {piece : UInt32} (agree : FlagsAgree pieceLen state)
    (flagged : (state.purgeExpiredLeases now).tracker.isRequested piece = true) :
    state.FullyLeased now pieceLen piece := by
  intro block inside
  rw [isRequested_purge, Bool.and_eq_true, List.all_eq_true] at flagged
  obtain ⟨lease, member, same⟩ := agree piece flagged.1 block inside
  exact ⟨lease, member, flagged.2 lease member, same⟩

end Flags

/-- In a run that releases the leases of flagged pieces as a whole, no block being handed out
means that every wanted block is leased exactly when the rarest piece without a flag is fully
leased only together with all other wanted pieces without a flag. -/
theorem nothing_handed_out_iff {pieceLen : UInt32 → Nat} {pieceCount : UInt32}
    {events : List SchedulerEvent} (whole : (new pieceCount).AllReleaseWhole pieceLen events)
    (now leasedAt : Nat) :
    let state := (new pieceCount).performAll pieceLen events
    let unexpired := (state.purgeExpiredLeases now).tracker
    ((state.nextBlock pieceLen now leasedAt).1 = none →
      ∀ piece, state.tracker.Wanted piece → state.FullyLeased now pieceLen piece) ↔
    ∀ piece, unexpired.Rarest piece → state.FullyLeased now pieceLen piece →
      ∀ other, state.tracker.Wanted other → unexpired.isRequested other = false →
        state.FullyLeased now pieceLen other := by
  have agree := (flagsAgree_new pieceLen pieceCount).performAll whole
  generalize (new pieceCount).performAll pieceLen events = state at agree
  dsimp only
  rw [nextBlock_eq_none]
  constructor
  · intro right piece rarest full other wanted _
    refine right (fun piece' rarest' => ?_) other wanted
    rwa [← rarest.unique rarest']
  · intro last nothing piece wanted
    cases flagged : (state.purgeExpiredLeases now).tracker.isRequested piece with
    | true => exact agree.fullyLeased flagged
    | false =>
        have eligible : (state.purgeExpiredLeases now).tracker.Eligible piece :=
          ⟨wanted_purge.mpr wanted, flagged⟩
        cases picked : (state.purgeExpiredLeases now).tracker.nextPiece with
        | none => exact absurd eligible (PieceTracker.nextPiece_eq_none.mp picked piece)
        | some rarest =>
            have first := PieceTracker.nextPiece_eq_some.mp picked
            exact last rarest first (nothing rarest first) piece wanted flagged

namespace Sample

/-- All blocks of two pieces of two blocks are handed out, the first piece is flagged, and the
last block is released and handed out again. -/
def allHandedOut : List SchedulerEvent :=
  [seeder, .nextBlock 0 0, .nextBlock 0 0, .nextBlock 0 0, .nextBlock 0 0, .nextBlock 0 0,
    .clearBlock 1 16384, .nextBlock 0 0]

end Sample

open Sample in
/-- Of two pieces one is flagged, so that the other is the rarest one without a flag. -/
theorem nothing_handed_out_of_two_pieces :
    let state := (new 2).performAll (fun _ => 32768) allHandedOut
    (state.nextBlock (fun _ => 32768) 1 1).1 = none ∧
      ∀ piece, state.tracker.Wanted piece → state.FullyLeased 1 (fun _ => 32768) piece := by
  have nothing : (((new 2).performAll (fun _ => 32768) allHandedOut).nextBlock
      (fun _ => 32768) 1 1).1 = none := by decide +kernel
  have unflagged : ((new 2).performAll (fun _ => 32768)
      (allHandedOut.take 6)).tracker.isRequested 1 = false := by decide +kernel
  have whole : (new 2).AllReleaseWhole (fun _ => 32768) allHandedOut := by
    simp only [allHandedOut, AllReleaseWhole, ReleasesWhole, seeder, true_and, and_true]
    intro flagged
    exact absurd (unflagged.symm.trans flagged) Bool.false_ne_true
  refine ⟨nothing, (nothing_handed_out_iff whole 1 1).mpr ?_ nothing⟩
  intro piece rarest full other wanted free
  have flags : ((new 2).performAll (fun _ => 32768) allHandedOut).tracker.indices = [0, 1] ∧
      (((new 2).performAll (fun _ => 32768) allHandedOut).purgeExpiredLeases
        1).tracker.isRequested 0 = true := by decide +kernel
  have only : ∀ index ∈ ((new 2).performAll (fun _ => 32768) allHandedOut).tracker.indices,
      (((new 2).performAll (fun _ => 32768) allHandedOut).purgeExpiredLeases
        1).tracker.isRequested index = false → index = 1 := by
    rw [flags.1]
    intro index member unset
    rcases List.mem_pair.mp member with rfl | rfl
    · exact absurd (unset.symm.trans flags.2) Bool.false_ne_true
    · rfl
  rw [only other wanted.1 free, ← only piece (wanted_purge.mp rarest.1.1).1 rarest.1.2]
  exact full

namespace Sample

/-- Both blocks of a piece are leased and asked for once more, then the first is released. -/
def released : SchedulerState :=
  (new 1).performAll (fun _ => 32768)
    [seeder, .nextBlock 0 0, .nextBlock 0 0, .nextBlock 0 0, .clearBlock 0 0]

def halfLeased : SchedulerState :=
  (new 2).performAll (fun _ => 1) [seeder, .nextBlock 0 0]

end Sample

open Sample in
/-- A released block of a flagged piece is not handed out again, and a fully leased piece hides
the free block of another one. -/
theorem free_blocks_not_handed_out :
    ((released.nextBlock (fun _ => 32768) 0 0).1 = none ∧ released.tracker.Wanted 0 ∧
      0 < released.totalBlocks 32768 ∧ ¬ released.Leased 0 0 (released.blockBegin 0)) ∧
    ((halfLeased.nextBlock (fun _ => 1) 0 0).1 = none ∧ halfLeased.tracker.Wanted 1 ∧
      0 < halfLeased.totalBlocks 1 ∧ ¬ halfLeased.Leased 0 1 (halfLeased.blockBegin 0)) := by
  have computed : ((released.nextBlock (fun _ => 32768) 0 0).1 = none ∧
      (0 ∈ released.tracker.indices ∧ released.tracker.hasPiece 0 = false ∧
        released.tracker.peerCountFor 0 ≠ 0) ∧
      0 < released.totalBlocks 32768 ∧ released.leases 0 = [(16384, 0)] ∧
      released.blockBegin 0 = 0) ∧
    ((halfLeased.nextBlock (fun _ => 1) 0 0).1 = none ∧
      (1 ∈ halfLeased.tracker.indices ∧ halfLeased.tracker.hasPiece 1 = false ∧
        halfLeased.tracker.peerCountFor 1 ≠ 0) ∧
      0 < halfLeased.totalBlocks 1 ∧ halfLeased.leases 1 = []) := by
    decide +kernel
  obtain ⟨⟨nothing, wanted, blocks, leases, begins⟩, nothing', wanted', blocks', leases'⟩ :=
    computed
  refine ⟨⟨nothing, wanted, blocks, ?_⟩, nothing', wanted', blocks', ?_⟩
  · rintro ⟨lease, member, -, same⟩
    rw [leases, List.mem_singleton] at member
    rw [member, begins] at same
    exact absurd same (by decide)
  · rintro ⟨lease, member, -⟩
    rw [leases'] at member
    cases member

end SchedulerState

end Vtorrent
