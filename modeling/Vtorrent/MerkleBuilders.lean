import Vtorrent.BufferedMerkle
import Vtorrent.InclusionProofs

/-!
# Three ways to build a Merkle tree

Blocks are checked with a reduction in place, proofs are made from a tree that is built level by
level, and block production keeps the level buffers of earlier trees.  All of them give the same
root and the same proofs.
-/

namespace Vtorrent

open DuplicatingMerkle

/-- `compute_merkle_root_from_txids` as it is computed, in a copy of the hashes. -/
def computeMerkleRootInPlace (crypto : Crypto) (txids : List Hash) : Hash :=
  if txids.length = 0 then zeroHash
  else (reduceInPlace (combineHashes crypto) zeroHash txids.length txids txids.length).getD 0
    zeroHash

/-- A builder that keeps its level buffers. -/
structure MerkleScratch where
  levels : List (List Hash)

namespace MerkleScratch

def new : MerkleScratch := ⟨[]⟩

def root (scratch : MerkleScratch) : Hash :=
  (scratch.levels.getLast?.bind List.head?).getD zeroHash

def build (crypto : Crypto) (scratch : MerkleScratch) (leaves : List Hash) :
    Hash × MerkleScratch :=
  if leaves.isEmpty then (zeroHash, ⟨[[zeroHash]]⟩)
  else
    let buffers := if scratch.levels.isEmpty then [[]] else scratch.levels
    let built : MerkleScratch :=
      ⟨rebuild (combineHashes crypto) leaves.length 0 (buffers.set 0 leaves)⟩
    (built.root, built)

def proof (scratch : MerkleScratch) (index : Nat) : Option MerkleProof :=
  match (scratch.levels.headD [])[index]? with
  | none => none
  | some txid => some {
      txid := txid
      index := index
      siblings := DuplicatingMerkle.siblings zeroHash scratch.levels.dropLast index
      root := scratch.root }

def buildAll (crypto : Crypto) (history : List (List Hash)) : MerkleScratch :=
  history.foldl (fun scratch leaves => (scratch.build crypto leaves).2) new

theorem root_eq_of_levels {scratch : MerkleScratch} {tree : MerkleTree}
    (same : scratch.levels = tree.levels) : scratch.root = tree.root := by
  rw [root, MerkleTree.root, same, List.getLastD_eq_getLast?]
  cases tree.levels.getLast? with
  | none => rfl
  | some top => cases top <;> rfl

theorem proof_eq_of_levels {scratch : MerkleScratch} {tree : MerkleTree}
    (same : scratch.levels = tree.levels) (index : Nat) :
    scratch.proof index = tree.proof index := by
  have roots := root_eq_of_levels same
  cases found : (tree.levels.headD [])[index]? with
  | none => simp only [proof, MerkleTree.proof, same, found]
  | some leaf => simp only [proof, MerkleTree.proof, same, roots, found]

/-- Whatever the buffers held, they hold the levels of the tree afterwards. -/
theorem levels_build (crypto : Crypto) (scratch : MerkleScratch) (leaves : List Hash) :
    (scratch.build crypto leaves).2.levels = (MerkleTree.build crypto leaves).levels := by
  rw [build, MerkleTree.build]
  by_cases none : leaves.isEmpty = true
  · rw [if_pos none, if_pos none]
  · rw [if_neg none, if_neg none]
    have nonempty : 0 < leaves.length := by
      simpa [List.length_pos_iff] using none
    have held : ((if scratch.levels.isEmpty = true then [[]] else scratch.levels).set 0
        leaves)[0]? = some leaves := by
      cases scratch.levels <;> simp
    exact rebuild_eq (combineHashes crypto) leaves.length held nonempty

theorem root_build (crypto : Crypto) (scratch : MerkleScratch) (leaves : List Hash) :
    (scratch.build crypto leaves).1 = (MerkleTree.build crypto leaves).root := by
  have same := root_eq_of_levels (levels_build crypto scratch leaves)
  rw [← same, build]
  split <;> rfl

end MerkleScratch

theorem computeMerkleRootInPlace_eq (crypto : Crypto) (txids : List Hash) :
    computeMerkleRootInPlace crypto txids = computeMerkleRootFromTxids crypto txids := by
  rw [computeMerkleRootInPlace, computeMerkleRootFromTxids, DuplicatingMerkle.root]
  by_cases none : txids.length = 0
  · rw [if_pos none, List.length_eq_zero_iff.mp none]
    rfl
  · have front := getElem?_reduceInPlace (combineHashes crypto) zeroHash txids.length
      (List.take_length (l := txids)) (by omega)
    rw [if_neg none, List.getD_eq_getElem?_getD, front, List.headD_eq_head?_getD,
      List.head?_eq_getElem?]

/-- The three builders give one root, whatever the kept buffers were used for before.  The tree
and the kept buffers give the same proof of every leaf, and it is verified against the root. -/
theorem merkle_builders_agree (crypto : Crypto) (history : List (List Hash))
    (leaves : List Hash) :
    computeMerkleRootInPlace crypto leaves = (MerkleTree.build crypto leaves).root ∧
    ((MerkleScratch.buildAll crypto history).build crypto leaves).1 =
      (MerkleTree.build crypto leaves).root ∧
    ∀ index, index < leaves.length →
      ∃ proof, (MerkleTree.build crypto leaves).proof index = some proof ∧
        ((MerkleScratch.buildAll crypto history).build crypto leaves).2.proof index =
          some proof ∧
        proof.verify crypto (MerkleTree.build crypto leaves).root = .ok () := by
  refine ⟨?_, MerkleScratch.root_build crypto _ leaves, fun index inRange => ?_⟩
  · rw [computeMerkleRootInPlace_eq, MerkleTree.root_build]
  · have nonempty : leaves ≠ [] := List.ne_nil_of_length_pos (by omega)
    obtain ⟨proof, given, _, _, _⟩ :=
      MerkleTree.exists_proof crypto (List.getElem?_eq_getElem inRange)
    refine ⟨proof, given, ?_, (MerkleTree.verify_proof nonempty given).1⟩
    rw [MerkleScratch.proof_eq_of_levels (MerkleScratch.levels_build crypto _ leaves), given]

end Vtorrent
