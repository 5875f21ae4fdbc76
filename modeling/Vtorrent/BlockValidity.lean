import Vtorrent.Consensus

/-!
# What validation establishes

The checks of transactions and blocks, read back as properties.  The clock is
the only input of block validation besides the block and its parent, so it is
kept apart from the rest.
-/

namespace Vtorrent

open Checked

/-- The outputs of a validated transaction carry positive values up to the money
cap, apart from the marker that opens a coinstake. -/
structure OutputsValid (tx : Transaction) (index : Nat) (outputs : List TxOutput) :
    Prop where
  capped : ∀ output ∈ outputs, output.value ≤ maxMoney
  positive : ∀ i output, outputs[i]? = some output → output.value = 0 →
    isCoinstakeMarker tx (index + i) output = true

theorem validateOutputs_eq_ok {tx : Transaction} {index : Nat}
    {outputs : List TxOutput} (checked : validateOutputs tx index outputs = .ok ()) :
    OutputsValid tx index outputs := by
  induction outputs generalizing index with
  | nil => exact ⟨by simp, by simp⟩
  | cons output outputs ih =>
      simp only [validateOutputs, validateOutput, bind_eq_ok, rejectIf_eq_ok] at checked
      obtain ⟨_, ⟨_, marked, capped⟩, rest⟩ := checked
      have later := ih rest
      constructor
      · intro other member
        rcases List.mem_cons.mp member with rfl | member
        · simpa using capped
        · exact later.capped other member
      · intro i other found zero
        cases i with
        | zero =>
            obtain rfl : output = other := by simpa using found
            simpa [zero] using marked
        | succ i =>
            have marker := later.positive i other (by simpa using found) zero
            rwa [Nat.add_assoc, Nat.add_comm 1 i] at marker

structure WellFormed (tx : Transaction) : Prop where
  outputsNonempty : tx.outputs ≠ []
  outputs : OutputsValid tx 0 tx.outputs
  claim : tx.txType = .legacyClaim → tx.claimAddress.isSome = true ∧ tx.inputs = []
  coinstake : tx.txType = .coinstake → ∃ input, tx.inputs = [input]
  inputsNonempty : tx.txType ≠ .legacyClaim → tx.txType ≠ .coinbase → tx.inputs ≠ []

theorem validateTransaction_eq_ok {tx : Transaction}
    (checked : validateTransaction tx = .ok ()) : WellFormed tx := by
  simp only [validateTransaction, bind_eq_ok, rejectIf_eq_ok] at checked
  obtain ⟨_, nonempty, _, outputs, kind⟩ := checked
  refine ⟨by simpa using nonempty, validateOutputs_eq_ok outputs, ?_, ?_, ?_⟩
  · intro isClaim
    simp only [isClaim, bind_eq_ok, rejectIf_eq_ok] at kind
    obtain ⟨_, named, _, _, inputless⟩ := kind
    exact ⟨by simpa using named, by simpa using inputless⟩
  · intro isStake
    simp only [isStake, rejectIf_eq_ok] at kind
    exact List.length_eq_one_iff.mp (by simpa using kind)
  · intro notClaim notCoinbase
    cases kindOf : tx.txType with
    | legacyClaim => exact absurd kindOf notClaim
    | coinbase => exact absurd kindOf notCoinbase
    | coinstake =>
        simp only [kindOf, rejectIf_eq_ok] at kind
        intro empty
        simp [empty] at kind
    | standard | atomicSwap | torrentIncentive =>
        simp only [kindOf, bind_eq_ok, rejectIf_eq_ok] at kind
        obtain ⟨_, nonempty, _⟩ := kind
        simpa using nonempty

theorem validateTransactions_eq_ok {txs : List Transaction}
    (checked : validateTransactions txs = .ok ()) : ∀ tx ∈ txs, WellFormed tx := by
  induction txs with
  | nil => simp
  | cons tx txs ih =>
      simp only [validateTransactions, bind_eq_ok] at checked
      obtain ⟨_, first, rest⟩ := checked
      intro other member
      rcases List.mem_cons.mp member with rfl | member
      · exact validateTransaction_eq_ok first
      · exact ih rest other member

/-- The checks of a block that do not read the clock. -/
structure BlockValid (crypto : Crypto) (block : Block) (parent : ParentView)
    (allowPow : Bool) : Prop where
  nonempty : block.transactions ≠ []
  size : block.encode.length ≤ maxBlockSize
  height : block.height.toNat = parent.height + 1
  bits : block.header.bits = parent.bits
  modifier : block.header.stakeModifier =
    computeStakeModifier crypto parent.stakeModifier parent.hash
  first : validateFirstTransaction block parent.height allowPow = .ok ()
  single : ∀ tx ∈ block.transactions.tail,
    tx.isCoinbase = false ∧ tx.isCoinstake = false
  later : parent.timestamp < block.header.timestamp
  merkle : block.computeMerkleRoot crypto = block.header.merkleRoot
  transactions : validateTransactions block.transactions = .ok ()

/-- Validation passes exactly when the block is valid and its timestamp is not
too far ahead of the clock. -/
theorem validateBlockInner_eq_ok {crypto : Crypto} {now : UInt32} {block : Block}
    {parent : ParentView} {allowPow : Bool} :
    validateBlockInner crypto now block parent allowPow = .ok () ↔
      BlockValid crypto block parent allowPow ∧
        block.header.timestamp.toNat ≤ latestTimestamp now := by
  simp only [validateBlockInner, bind_eq_ok, rejectIf_eq_ok]
  constructor
  · rintro ⟨_, nonempty, _, size, _, height, _, bits, _, modifier, _, first, _, single,
      _, notFuture, _, later, _, merkle, transactions⟩
    refine ⟨⟨by simpa using nonempty, by simpa using size, by simpa using height,
      by simpa using bits, by simpa using modifier, first, ?_, by simpa using later,
      by simpa using merkle, transactions⟩, by simpa using notFuture⟩
    simpa using single
  · rintro ⟨valid, notFuture⟩
    exact ⟨(), by simpa using valid.nonempty, (), by simpa using valid.size, (),
      by simpa using valid.height, (), by simpa using valid.bits, (),
      by simpa using valid.modifier, (), valid.first, (), by simpa using valid.single,
      (), by simpa using notFuture, (), by simpa using valid.later, (),
      by simpa using valid.merkle, valid.transactions⟩

theorem BlockValid.wellFormed {crypto : Crypto} {block : Block} {parent : ParentView}
    {allowPow : Bool} (valid : BlockValid crypto block parent allowPow)
    {tx : Transaction} (member : tx ∈ block.transactions) : WellFormed tx :=
  validateTransactions_eq_ok valid.transactions tx member

theorem BlockValid.lockTime_of_coinbase {crypto : Crypto} {block : Block}
    {parent : ParentView} {allowPow : Bool}
    (valid : BlockValid crypto block parent allowPow) {tx : Transaction}
    (member : tx ∈ block.transactions) (coinbase : tx.txType = .coinbase) :
    tx.lockTime.toNat = parent.height + 1 := by
  cases shape : block.transactions with
  | nil => simp [shape] at member
  | cons first rest =>
      rw [shape] at member
      rcases List.mem_cons.mp member with rfl | later
      · simpa [Block.height, shape] using valid.height
      · have notCoinbase := (valid.single tx (by rwa [shape])).1
        simp [Transaction.isCoinbase, coinbase] at notCoinbase

end Vtorrent
