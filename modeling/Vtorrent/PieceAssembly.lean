import Vtorrent.FiniteMapTotals
import Vtorrent.PlacedBlocks
import Vtorrent.Primitives

/-!
# Assembling a piece from blocks

The blocks of a piece arrive in any order, from peers that may send anything.  A block is
accepted when it is not empty, lies inside the piece and overlaps no accepted block.  The piece
is complete when as many bytes were accepted as it has, which is when the accepted blocks cover
it, and the blocks in the order of their offsets then are the piece.
-/

namespace Vtorrent

open PlacedBlocks ListWindow Std

def maxBlocksPerPiece : Nat := 4096

structure PieceAssembler where
  expectedLength : Nat
  blocks : ExtTreeMap UInt32 Bytes
  ranges : List (UInt32 × UInt32)
  received : Nat

namespace PieceAssembler

def new (expectedLength : Nat) : PieceAssembler := ⟨expectedLength, ∅, [], 0⟩

/-- `add_block`: whether the block was accepted, and the assembler afterwards. -/
def addBlock (assembler : PieceAssembler) (start : UInt32) (data : Bytes) :
    Bool × PieceAssembler :=
  if data.isEmpty then (false, assembler)
  else if maxBlocksPerPiece ≤ assembler.blocks.size then (false, assembler)
  else
    let stop := start.toNat + data.length
    if assembler.expectedLength < stop then (false, assembler)
    else if assembler.ranges.any fun range =>
        decide (start.toNat < range.2.toNat) && decide (range.1.toNat < stop) then
      (false, assembler)
    else
      (true, { assembler with
        ranges := assembler.ranges ++ [(start, UInt32.ofNat stop)]
        received := assembler.received + data.length
        blocks := assembler.blocks.insert start data })

def isComplete (assembler : PieceAssembler) : Bool :=
  decide (assembler.expectedLength ≤ assembler.received)

/-- `assemble`: the blocks in the order of their offsets, once the piece is complete. -/
def assemble (assembler : PieceAssembler) : Option Bytes :=
  if assembler.isComplete then some (assembler.blocks.toList.flatMap Prod.snd) else none

/-- `verify`. -/
def verify (sha1 : Bytes → ByteVector 20) (assembler : PieceAssembler)
    (expectedHash : ByteVector 20) : Bool :=
  match assembler.assemble with
  | none => false
  | some data => sha1 data == expectedHash

/-- A sequence of calls of `add_block`, with the blocks that were accepted. -/
def addBlocks (assembler : PieceAssembler) :
    List (UInt32 × Bytes) → PieceAssembler × List (UInt32 × Bytes)
  | [] => (assembler, [])
  | (start, data) :: calls =>
      let (accepted, next) := assembler.addBlock start data
      let (final, others) := next.addBlocks calls
      (final, if accepted then (start, data) :: others else others)

def placed (block : UInt32 × Bytes) : Nat × Bytes := (block.1.toNat, block.2)

structure Keeps (assembler : PieceAssembler) (accepted : List (UInt32 × Bytes)) : Prop where
  listed : assembler.blocks.toList.Perm accepted
  ranges : assembler.ranges.map (fun range => (range.1.toNat, range.2.toNat)) =
    accepted.map fun block => (block.1.toNat, block.1.toNat + block.2.length)
  received : assembler.received = (accepted.map fun block => block.2.length).sum
  filled : ∀ block ∈ accepted, block.2 ≠ []
  apart : (accepted.map placed).Pairwise Apart
  inside : ∀ block ∈ accepted, block.1.toNat + block.2.length ≤ assembler.expectedLength

theorem keeps_new (expectedLength : Nat) : (new expectedLength).Keeps [] where
  listed := by simp [new]
  ranges := rfl
  received := rfl
  filled := by simp
  apart := List.Pairwise.nil
  inside := by simp

theorem addBlock_eq_true {assembler next : PieceAssembler} {start : UInt32} {data : Bytes}
    (call : assembler.addBlock start data = (true, next)) :
    data ≠ [] ∧ start.toNat + data.length ≤ assembler.expectedLength ∧
      (∀ range ∈ assembler.ranges,
        range.2.toNat ≤ start.toNat ∨ start.toNat + data.length ≤ range.1.toNat) ∧
      next = { assembler with
        ranges := assembler.ranges ++ [(start, UInt32.ofNat (start.toNat + data.length))]
        received := assembler.received + data.length
        blocks := assembler.blocks.insert start data } := by
  unfold addBlock at call
  split at call
  · cases call
  · rename_i nonempty
    split at call
    · cases call
    · dsimp only at call
      split at call
      · cases call
      · split at call
        · cases call
        · rename_i short free
          obtain ⟨-, rfl⟩ := Prod.mk.inj call
          refine ⟨by simpa using nonempty, Nat.not_lt.mp short, ?_, rfl⟩
          intro range member
          by_contra overlap
          refine free (List.any_eq_true.mpr ⟨range, member, ?_⟩)
          simp only [Bool.and_eq_true, decide_eq_true_eq]
          omega

theorem addBlock_eq_false {assembler next : PieceAssembler} {start : UInt32} {data : Bytes}
    (call : assembler.addBlock start data = (false, next)) : next = assembler := by
  unfold addBlock at call
  grind

theorem expectedLength_addBlock (assembler : PieceAssembler) (start : UInt32) (data : Bytes) :
    (assembler.addBlock start data).2.expectedLength = assembler.expectedLength := by
  unfold addBlock
  grind

theorem Keeps.addBlock {assembler next : PieceAssembler} {accepted : List (UInt32 × Bytes)}
    {start : UInt32} {data : Bytes} (keeps : assembler.Keeps accepted)
    (small : assembler.expectedLength < 2 ^ 32)
    (call : assembler.addBlock start data = (true, next)) :
    next.Keeps (accepted ++ [(start, data)]) := by
  obtain ⟨nonempty, short, free, rfl⟩ := addBlock_eq_true call
  have filled : 0 < data.length := List.length_pos_iff.mpr nonempty
  have separate : ∀ block ∈ accepted, Apart (placed block) (placed (start, data)) := by
    intro block member
    have listed : (block.1.toNat, block.1.toNat + block.2.length) ∈
        assembler.ranges.map fun range => (range.1.toNat, range.2.toNat) := by
      rw [keeps.ranges]
      exact List.mem_map_of_mem member
    obtain ⟨range, known, same⟩ := List.mem_map.mp listed
    obtain ⟨first, last⟩ := Prod.mk.inj same
    have := free range known
    simp only [Apart, placed]
    omega
  have fresh : start ∉ assembler.blocks := by
    intro present
    obtain ⟨held, known⟩ := Option.isSome_iff_exists.mp
      (ExtTreeMap.mem_iff_isSome_getElem?.mp present)
    have member := keeps.listed.mem_iff.mp
      (ExtTreeMap.mem_toList_iff_getElem?_eq_some.mpr known)
    have long := List.length_pos_iff.mpr (keeps.filled _ member)
    have overlap := separate _ member
    simp only [Apart, placed] at overlap long
    omega
  exact {
    listed := by
      refine (FiniteMap.toList_insert_perm data fresh).trans ?_
      exact ((keeps.listed.cons _).trans (List.perm_append_singleton _ _).symm)
    ranges := by
      have stop : (UInt32.ofNat (start.toNat + data.length)).toNat =
          start.toNat + data.length :=
        UInt32.toNat_ofNat_of_lt' (short.trans_lt small)
      simp only [List.map_append, keeps.ranges, List.map_cons, List.map_nil, stop]
    received := by
      simp only [List.map_append, List.sum_append, keeps.received, List.map_cons, List.map_nil,
        List.sum_cons, List.sum_nil, Nat.add_zero]
    filled := by
      intro block member
      rcases List.mem_append.mp member with member | member
      · exact keeps.filled block member
      · rw [List.mem_singleton.mp member]
        exact nonempty
    apart := by
      rw [List.map_append, List.map_cons, List.map_nil]
      refine List.pairwise_append.mpr ⟨keeps.apart, List.pairwise_singleton _ _, ?_⟩
      intro first member second last
      obtain ⟨block, known, rfl⟩ := List.mem_map.mp member
      rw [List.mem_singleton.mp last]
      exact separate block known
    inside := by
      intro block member
      rcases List.mem_append.mp member with member | member
      · exact keeps.inside block member
      · rw [List.mem_singleton.mp member]
        exact short }

theorem Keeps.addBlocks {assembler : PieceAssembler} {accepted : List (UInt32 × Bytes)}
    (keeps : assembler.Keeps accepted) (small : assembler.expectedLength < 2 ^ 32)
    (calls : List (UInt32 × Bytes)) :
    (assembler.addBlocks calls).1.Keeps (accepted ++ (assembler.addBlocks calls).2) ∧
      (assembler.addBlocks calls).1.expectedLength = assembler.expectedLength := by
  induction calls generalizing assembler accepted with
  | nil => exact ⟨by simpa [PieceAssembler.addBlocks] using keeps, rfl⟩
  | cons call calls ih =>
      obtain ⟨start, data⟩ := call
      have same := expectedLength_addBlock assembler start data
      rw [PieceAssembler.addBlocks]
      cases result : assembler.addBlock start data with
      | mk taken next =>
          rw [result] at same
          dsimp only at same ⊢
          rw [← same]
          cases taken with
          | true =>
              have kept := ih (keeps.addBlock small result) (by rwa [same])
              simpa using kept
          | false =>
              rw [addBlock_eq_false result]
              simpa using ih keeps small

theorem Keeps.ascending {assembler : PieceAssembler} {accepted : List (UInt32 × Bytes)}
    (keeps : assembler.Keeps accepted) :
    Ascending 0 assembler.expectedLength (assembler.blocks.toList.map placed) := by
  have perm := keeps.listed.map placed
  refine ascending_of_pairwise (Nat.zero_le _) ?_ ?_ ?_
  · refine List.pairwise_map.mpr (List.Pairwise.imp ?_ assembler.blocks.ordered_keys_toList)
    intro first second order
    exact UInt32.lt_iff_toNat_lt.mp (Std.compare_eq_lt.mp order)
  · exact (perm.pairwise_iff fun apart => apart.symm).mpr keeps.apart
  · intro block member
    obtain ⟨block, known, rfl⟩ := List.mem_map.mp member
    exact ⟨Nat.zero_le _, keeps.inside block (keeps.listed.mem_iff.mp known)⟩

theorem Keeps.length_joined {assembler : PieceAssembler} {accepted : List (UInt32 × Bytes)}
    (keeps : assembler.Keeps accepted) :
    (joined (assembler.blocks.toList.map placed)).length = assembler.received := by
  rw [PlacedBlocks.length_joined, keeps.received, List.map_map]
  exact (keeps.listed.map _).sum_eq

/-- Over any sequence of calls the accepted blocks are disjoint and inside the piece, the piece
is complete exactly when they cover it, and what is assembled then has the expected length and
every accepted block at its own offset. -/
theorem accepted_blocks_assemble {expectedLength : Nat} (small : expectedLength < 2 ^ 32)
    (calls : List (UInt32 × Bytes)) :
    let final := ((new expectedLength).addBlocks calls).1
    let accepted := ((new expectedLength).addBlocks calls).2
    (accepted.map placed).Pairwise Apart ∧
    (∀ block ∈ accepted, block.1.toNat + block.2.length ≤ expectedLength) ∧
    (final.isComplete = true ↔
      ∀ place < expectedLength, ∃ block ∈ accepted, Contains (placed block) place) ∧
    (final.isComplete = true → ∃ piece, final.assemble = some piece ∧
      piece.length = expectedLength ∧ ∀ block ∈ accepted,
        window block.1.toNat (block.1.toNat + block.2.length) piece = block.2) := by
  obtain ⟨keeps, same⟩ := (keeps_new expectedLength).addBlocks small calls
  generalize (new expectedLength).addBlocks calls = result at keeps same ⊢
  obtain ⟨assembler, accepted⟩ := result
  obtain rfl : assembler.expectedLength = expectedLength := same
  dsimp only [List.nil_append] at keeps
  have ascending := keeps.ascending
  have length := keeps.length_joined
  have bound := ascending.length_joined_le
  have member : ∀ block, block ∈ accepted →
      placed block ∈ assembler.blocks.toList.map placed := fun block known =>
    List.mem_map_of_mem (keeps.listed.mem_iff.mpr known)
  have complete : assembler.isComplete = true ↔
      assembler.expectedLength ≤ 0 + (joined (assembler.blocks.toList.map placed)).length := by
    rw [isComplete, decide_eq_true_iff, length, Nat.zero_add]
  refine ⟨keeps.apart, keeps.inside, complete.trans ⟨?_, ?_⟩, ?_⟩
  · intro full place inside
    obtain ⟨_, known, contains⟩ := ascending.covers full (Nat.zero_le place) inside
    obtain ⟨block, listed, rfl⟩ := List.mem_map.mp known
    exact ⟨block, keeps.listed.mem_iff.mp listed, contains⟩
  · intro covers
    refine ascending.full_of_covers fun place _ inside => ?_
    obtain ⟨block, known, contains⟩ := covers place inside
    exact ⟨_, member block known, contains⟩
  · intro done
    have full := complete.mp done
    refine ⟨joined (assembler.blocks.toList.map placed), ?_, by omega, ?_⟩
    · rw [assemble, if_pos done, joined, List.flatMap_map]
      rfl
    · intro block known
      have placedAt := ascending.window_joined full _ (member block known)
      rwa [Nat.sub_zero, Nat.sub_zero] at placedAt

def fourBytes : List (UInt32 × Bytes) :=
  [(2, [3, 4]), (1, [9, 9]), (3, [4, 5]), (0, [1, 2])]

theorem fourBytes_assemble : ∃ piece,
    ((new 4).addBlocks fourBytes).1.assemble = some piece ∧ piece.length = 4 ∧
      ∀ block ∈ ((new 4).addBlocks fourBytes).2,
        window block.1.toNat (block.1.toNat + block.2.length) piece = block.2 := by
  have complete : ((new 4).addBlocks fourBytes).1.isComplete = true := by decide
  exact (accepted_blocks_assemble (by decide) fourBytes).2.2.2 complete

end PieceAssembler

end Vtorrent
