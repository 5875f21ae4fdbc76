import Vtorrent.Deliveries
import Vtorrent.MerklePaths

/-!
# Inclusion proofs of the light client

A light client holds headers only.  A proof of inclusion names a transaction, an index in
the block and the siblings on the way to the Merkle root, each with its side.  Verifying
folds the siblings and compares the result with the root of the header; the index is not
compared with the sides.
-/

namespace Vtorrent

open Std DuplicatingMerkle

/-- The errors of the light client that checking a proof can return. -/
inductive SpvError where
  | invalidMerkleProof (reason : String)
  | unknownParent (hash : String)
deriving DecidableEq

structure MerkleTree where
  levels : List (List Hash)

/-- A proof that a transaction is in the block with the given root. -/
structure MerkleProof where
  txid : Hash
  index : Nat
  siblings : List (ProofNode Hash)
  root : Hash

namespace MerkleTree

def build (crypto : Crypto) (txids : List Hash) : MerkleTree :=
  if txids.isEmpty then ⟨[[zeroHash]]⟩
  else ⟨DuplicatingMerkle.levels (combineHashes crypto) txids.length txids⟩

def root (tree : MerkleTree) : Hash :=
  (tree.levels.getLastD []).headD zeroHash

def proof (tree : MerkleTree) (index : Nat) : Option MerkleProof :=
  match (tree.levels.headD [])[index]? with
  | none => none
  | some txid => some {
      txid := txid
      index := index
      siblings := DuplicatingMerkle.siblings zeroHash tree.levels.dropLast index
      root := tree.root }

end MerkleTree

def MerkleProof.verify (crypto : Crypto) (proof : MerkleProof) (expectedRoot : Hash) :
    Except SpvError Unit :=
  let current := climb (combineHashes crypto) proof.txid proof.siblings
  if current = expectedRoot then .ok ()
  else .error (.invalidMerkleProof ("computed root " ++ hexEncode current.toList ++
    " != expected " ++ hexEncode expectedRoot.toList))

/-- What checking a proof reads of a header. -/
structure SpvHeader where
  merkleRoot : Hash

/-- The headers a light client holds, by their hashes. -/
structure SpvChain where
  headers : ExtTreeMap Hash SpvHeader

def SpvChain.verifyTxInclusion (crypto : Crypto) (chain : SpvChain) (blockHash : Hash)
    (proof : MerkleProof) : Except SpvError Unit :=
  match chain.headers[blockHash]? with
  | none => .error (.unknownParent (hexEncode blockHash.toList))
  | some header => proof.verify crypto header.merkleRoot

theorem MerkleTree.root_build (crypto : Crypto) (txids : List Hash) :
    (build crypto txids).root = computeMerkleRootFromTxids crypto txids := by
  rw [build]
  split
  · next none =>
      rw [List.isEmpty_iff.mp none]
      rfl
  · rw [MerkleTree.root, List.getLastD_eq_getLast?, getLast?_levels, Option.getD_some]
    rfl

theorem MerkleProof.verify_eq_ok {crypto : Crypto} {proof : MerkleProof} {root : Hash} :
    proof.verify crypto root = .ok () ↔
      climb (combineHashes crypto) proof.txid proof.siblings = root := by
  rw [verify]
  split <;> simp_all

theorem MerkleTree.leaves_build {crypto : Crypto} {txids : List Hash}
    (nonempty : txids ≠ []) : (build crypto txids).levels.headD [] = txids := by
  obtain ⟨first, rest, rfl⟩ := List.exists_cons_of_ne_nil nonempty
  rw [build, if_neg (by simp), List.length_cons, DuplicatingMerkle.levels]
  split <;> rfl

theorem MerkleTree.exists_proof (crypto : Crypto) {txids : List Hash} {index : Nat}
    {txid : Hash} (found : txids[index]? = some txid) :
    ∃ proof, (build crypto txids).proof index = some proof ∧ proof.txid = txid ∧
      proof.index = index ∧ proof.root = (build crypto txids).root := by
  have nonempty : txids ≠ [] := List.ne_nil_of_mem (List.mem_of_getElem? found)
  rw [MerkleTree.proof, leaves_build nonempty, found]
  exact ⟨_, rfl, rfl, rfl, rfl⟩

/-- The proofs a tree gives are verified, and the sides of their siblings lead to the
index they state. -/
theorem MerkleTree.verify_proof {crypto : Crypto} {txids : List Hash} {index : Nat}
    {proof : MerkleProof} (nonempty : txids ≠ [])
    (given : (build crypto txids).proof index = some proof) :
    proof.verify crypto (build crypto txids).root = .ok () ∧
      txids[proof.index]? = some proof.txid ∧
      position txids.length proof.siblings = proof.index := by
  have built : build crypto txids =
      ⟨DuplicatingMerkle.levels (combineHashes crypto) txids.length txids⟩ := by
    rw [build, if_neg (by simpa using nonempty)]
  rw [MerkleTree.proof, leaves_build nonempty] at given
  cases found : txids[index]? with
  | none => simp [found] at given
  | some txid =>
      rw [found] at given
      obtain rfl := Option.some.inj given
      obtain ⟨arrives, place⟩ :=
        @climb_siblings _ (combineHashes crypto) zeroHash _ _ _ _ found le_rfl
      refine ⟨?_, found, ?_⟩
      · rw [MerkleProof.verify_eq_ok, root_build, built, arrives]
        rfl
      · rw [built]
        exact place

/-! ## What a verified proof says -/

def hashedPairs (crypto : Crypto) (txids : List Hash) (proof : MerkleProof) :
    List (Hash × Hash) :=
  preimages (combineHashes crypto) txids ++
    climbed (combineHashes crypto) proof.txid proof.siblings

/-- Neither the proven id nor an id of the block is the hash of a pair. -/
def IdsApart (crypto : Crypto) (txids : List Hash) (proof : MerkleProof) : Prop :=
  ∀ pair ∈ hashedPairs crypto txids proof, ∀ txid ∈ proof.txid :: txids,
    combineHashes crypto pair.1 pair.2 ≠ txid

/-- The light client vouches for a proof against the tree of a block: directly, or through
a header that commits to the tree. -/
def Vouched (crypto : Crypto) (txids : List Hash) (proof : MerkleProof) : Prop :=
  proof.verify crypto (MerkleTree.build crypto txids).root = .ok () ∨
    ∃ (chain : SpvChain) (blockHash : Hash) (header : SpvHeader),
      chain.headers[blockHash]? = some header ∧
      header.merkleRoot = (MerkleTree.build crypto txids).root ∧
      chain.verifyTxInclusion crypto blockHash proof = .ok ()

theorem Vouched.climbs {crypto : Crypto} {txids : List Hash} {proof : MerkleProof}
    (vouched : Vouched crypto txids proof) :
    climb (combineHashes crypto) proof.txid proof.siblings =
      root (combineHashes crypto) zeroHash txids := by
  have verified : proof.verify crypto (MerkleTree.build crypto txids).root = .ok () := by
    rcases vouched with verified | ⟨chain, blockHash, header, held, commits, verified⟩
    · exact verified
    · rw [SpvChain.verifyTxInclusion, held] at verified
      rw [← commits]
      exact verified
  rw [MerkleProof.verify_eq_ok, MerkleTree.root_build] at verified
  exact verified

/-- A proof the light client vouches for names a transaction of the block as soon as the
block has one.  The transaction stands at the index of the proof when that index is where
the sides of the siblings lead, and among distinct ids only then. -/
theorem vouched_at_index_iff {crypto : Crypto} {txids : List Hash} {proof : MerkleProof}
    (free : CollisionFree (combineHashes crypto) (hashedPairs crypto txids proof))
    (apart : IdsApart crypto txids proof) (vouched : Vouched crypto txids proof) :
    (proof.txid ∈ txids ↔ txids ≠ []) ∧
      (txids ≠ [] ∧ proof.index = position txids.length proof.siblings →
        txids[proof.index]? = some proof.txid) ∧
      (txids.Nodup → (txids[proof.index]? = some proof.txid ↔
        txids ≠ [] ∧ proof.index = position txids.length proof.siblings)) := by
  have leaf : txids ≠ [] →
      txids[position txids.length proof.siblings]? = some proof.txid :=
    fun nonempty => leaf_of_any_climb nonempty free apart vouched.climbs
  have stands : txids ≠ [] ∧ proof.index = position txids.length proof.siblings →
      txids[proof.index]? = some proof.txid := by
    rintro ⟨nonempty, place⟩
    rw [place]
    exact leaf nonempty
  refine ⟨⟨List.ne_nil_of_mem, fun nonempty => List.mem_of_getElem? (leaf nonempty)⟩,
    stands, fun distinct => ⟨fun found => ?_, stands⟩⟩
  have nonempty : txids ≠ [] := List.ne_nil_of_mem (List.mem_of_getElem? found)
  have inRange := (List.getElem?_eq_some_iff.mp found).1
  exact ⟨nonempty, (List.getElem?_inj inRange distinct).mp (found.trans (leaf nonempty).symm)⟩

/-! ## Two transactions -/

namespace Pair

open Regtest

def first : Hash := List.Vector.replicate 32 1

def second : Hash := List.Vector.replicate 32 2

def proofAt (index : Nat) : MerkleProof where
  txid := second
  index := index
  siblings := [⟨first, true⟩]
  root := computeMerkleRootFromTxids crypto [first, second]

def nothing : MerkleProof where
  txid := zeroHash
  index := 0
  siblings := []
  root := zeroHash

theorem hashedPairs_proofAt (index : Nat) :
    hashedPairs crypto [first, second] (proofAt index) = [(first, second), (first, second)] :=
  rfl

theorem collisionFree (index : Nat) : CollisionFree (combineHashes crypto)
    (hashedPairs crypto [first, second] (proofAt index)) := by
  rw [hashedPairs_proofAt]
  intro one inOne two inTwo _
  simp only [List.mem_cons, List.not_mem_nil, or_false, or_self] at inOne inTwo
  rw [inOne, inTwo]

theorem combined_apart : combineHashes crypto first second ≠ first ∧
    combineHashes crypto first second ≠ second := by
  decide +kernel

theorem idsApart (index : Nat) : IdsApart crypto [first, second] (proofAt index) := by
  intro pair inPairs txid inIds
  rw [hashedPairs_proofAt] at inPairs
  have pairEq : pair = (first, second) := by simpa using inPairs
  have ids : txid = second ∨ txid = first ∨ txid = second := by
    simpa only [proofAt, List.mem_cons, List.not_mem_nil, or_false] using inIds
  rw [pairEq]
  rcases ids with rfl | rfl | rfl
  · exact combined_apart.2
  · exact combined_apart.1
  · exact combined_apart.2

theorem vouched (index : Nat) : Vouched crypto [first, second] (proofAt index) := by
  left
  rw [MerkleProof.verify_eq_ok, MerkleTree.root_build]
  rfl

end Pair

theorem vouched_at_index_iff_pair :
    CollisionFree (combineHashes Regtest.crypto)
        (hashedPairs Regtest.crypto [Pair.first, Pair.second] (Pair.proofAt 1)) ∧
      IdsApart Regtest.crypto [Pair.first, Pair.second] (Pair.proofAt 1) ∧
      Vouched Regtest.crypto [Pair.first, Pair.second] (Pair.proofAt 1) ∧
      [Pair.first, Pair.second][(Pair.proofAt 1).index]? = some (Pair.proofAt 1).txid :=
  ⟨Pair.collisionFree 1, Pair.idsApart 1, Pair.vouched 1,
    (vouched_at_index_iff (Pair.collisionFree 1) (Pair.idsApart 1) (Pair.vouched 1)).2.1
      ⟨by simp, rfl⟩⟩

/-- The second of two transactions is vouched for at index 0, where another one stands, and
in an empty block the zero id is vouched for. -/
theorem vouched_at_wrong_index :
    (CollisionFree (combineHashes Regtest.crypto)
        (hashedPairs Regtest.crypto [Pair.first, Pair.second] (Pair.proofAt 0)) ∧
      IdsApart Regtest.crypto [Pair.first, Pair.second] (Pair.proofAt 0) ∧
      Vouched Regtest.crypto [Pair.first, Pair.second] (Pair.proofAt 0) ∧
      [Pair.first, Pair.second][(Pair.proofAt 0).index]? ≠ some (Pair.proofAt 0).txid) ∧
    (CollisionFree (combineHashes Regtest.crypto)
        (hashedPairs Regtest.crypto [] Pair.nothing) ∧
      IdsApart Regtest.crypto [] Pair.nothing ∧ Vouched Regtest.crypto [] Pair.nothing ∧
      Pair.nothing.txid ∉ []) := by
  have none : hashedPairs Regtest.crypto [] Pair.nothing = [] := rfl
  refine ⟨⟨Pair.collisionFree 0, Pair.idsApart 0, Pair.vouched 0, by decide⟩,
    ?_, ?_, .inl ?_, by simp⟩
  · rw [none]
    simp [CollisionFree]
  · rw [IdsApart, none]
    simp
  · rw [MerkleProof.verify_eq_ok, MerkleTree.root_build]
    rfl

end Vtorrent
