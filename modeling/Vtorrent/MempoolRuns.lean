import Vtorrent.Deliveries
import Vtorrent.MempoolAdmission

/-!
# Runs of the mempool

Every operation keeps the indexes exact and the pool within its limits, so both hold after
any sequence of operations on an empty pool.
-/

namespace Vtorrent

open Std (ExtTreeMap)

namespace Mempool

/-- The operations that change a pool. -/
inductive Operation where
  | add (tx : Transaction) (feeSats : UInt64) (now : Nat)
  | remove (txid : Hash)
  | confirm (confirmedTxids : List Hash) (spentOutpoints : List OutPoint)
  | reorg (chain : Chain) (now : Nat) (rolledBackTxs : List Transaction)
  | evictStale (nowSecs : Nat)

def Operation.apply (network : Network) (pool : Mempool) : Operation → Mempool
  | .add tx feeSats now =>
      Retained.final (addTransactionWithFee network.crypto tx feeSats now) pool
  | .remove txid => pool.removeTransaction txid
  | .confirm confirmedTxids spentOutpoints =>
      pool.handleConfirmedBlock confirmedTxids spentOutpoints
  | .reorg chain now rolledBackTxs => handleReorg network chain now rolledBackTxs pool
  | .evictStale nowSecs => (pool.evictStale nowSecs).1

def applyAll (network : Network) (pool : Mempool) (operations : List Operation) : Mempool :=
  operations.foldl (Operation.apply network) pool

variable {network : Network} {crypto : Crypto} {pool : Mempool}

structure Bounded (pool : Mempool) : Prop where
  count : pool.entries.size ≤ pool.maxSize
  bytes : pool.totalBytes ≤ pool.maxBytes

/-- Exact indexes, and both limits kept. -/
structure Sound (crypto : Crypto) (maxSize maxBytes : Nat) (pool : Mempool) : Prop where
  indexed : pool.Indexed crypto
  bounded : pool.Bounded
  size : pool.maxSize = maxSize
  budget : pool.maxBytes = maxBytes

variable {maxSize maxBytes : Nat}

theorem Sound.trims {after : Mempool} (sound : pool.Sound crypto maxSize maxBytes)
    (trims : pool.Trims after) : after.Sound crypto maxSize maxBytes := by
  obtain ⟨sameSize, sameBytes⟩ := trims.limits
  refine ⟨trims.indexed sound.indexed, ⟨?_, ?_⟩, sameSize.trans sound.size,
    sameBytes.trans sound.budget⟩
  · rw [sameSize]
    exact trims.size_le.trans sound.bounded.count
  · rw [sameBytes]
    exact trims.totalBytes_le.trans sound.bounded.bytes

theorem Sound.without (sound : pool.Sound crypto maxSize maxBytes) (removed : Set Hash) :
    (pool.without removed).Sound crypto maxSize maxBytes where
  indexed := sound.indexed.without removed
  bounded := ⟨ExtTreeMap.size_filter_le_size.trans sound.bounded.count,
    (FiniteMap.total_filter_le _ _ _).trans sound.bounded.bytes⟩
  size := sound.size
  budget := sound.budget

theorem Sound.removeEntries (sound : pool.Sound crypto maxSize maxBytes) (txids : List Hash) :
    (pool.removeEntries txids).Sound crypto maxSize maxBytes := by
  rw [sound.indexed.removeEntries]
  exact sound.without _

section Add

variable {tx : Transaction} {feeSats : UInt64} {now : Nat} {victims : List Hash}
  {roomy : Mempool}

/-- The new entry fits into the room that was made. -/
theorem Roomy.bounded (made : Roomy crypto pool tx feeSats victims roomy)
    (sound : pool.Sound crypto maxSize maxBytes) (positive : 1 ≤ maxSize) :
    (finish crypto tx feeSats now roomy).Bounded := by
  have indexed := sound.indexed
  have trims := made.trims indexed
  have new : tx.txid crypto ∉ roomy.decayFeeRate.entries := by
    intro member
    obtain ⟨entry, held⟩ := Option.isSome_iff_exists.mp
      (ExtTreeMap.isSome_getElem?_iff_mem.mpr member)
    have before := trims.held held
    rw [made.passes.new] at before
    cases before
  have sameEntries : roomy.decayFeeRate.entries = roomy.entries := by
    unfold decayFeeRate
    split <;> rfl
  obtain ⟨sameSize, sameBytes⟩ := trims.limits
  have roomySize : roomy.maxSize = maxSize :=
    ((indexed.trims_replace tx).trans (made.trims_replaced indexed)).limits.1.trans sound.size
  have roomyBytes : roomy.maxBytes = pool.maxBytes :=
    ((indexed.trims_replace tx).trans (made.trims_replaced indexed)).limits.2
  have fits : tx.serializedSize ≤ pool.maxBytes := by
    rw [← (indexed.trims_replace tx).limits.2]
    exact made.fits
  have count : (finish crypto tx feeSats now roomy).entries.size = roomy.entries.size + 1 := by
    rw [finish, insertEntry, ExtTreeMap.size_insert, if_neg (by simpa using new), sameEntries]
  have bytes : (finish crypto tx feeSats now roomy).totalBytes =
      tx.serializedSize + roomy.totalBytes := by
    rw [totalBytes, finish, insertEntry, FiniteMap.total_insert _ _ new, sameEntries]
    rfl
  constructor
  · rw [count]
    change roomy.entries.size + 1 ≤ roomy.decayFeeRate.maxSize
    rw [sameSize, sound.size]
    rcases made.settled indexed with room | empty
    · simp only [isFull, Bool.or_eq_false_iff, decide_eq_false_iff_not] at room
      omega
    · rw [empty]
      simpa using positive
  · rw [bytes]
    change tx.serializedSize + roomy.totalBytes ≤ roomy.decayFeeRate.maxBytes
    rw [sameBytes]
    rcases made.settled indexed with room | empty
    · simp only [isFull, Bool.or_eq_false_iff, decide_eq_false_iff_not] at room
      omega
    · have nothing : roomy.totalBytes = 0 := by
        simp [totalBytes, empty]
      omega

theorem Sound.add (sound : pool.Sound crypto maxSize maxBytes) (positive : 1 ≤ maxSize) :
    (Retained.final (addTransactionWithFee crypto tx feeSats now) pool).Sound crypto maxSize
      maxBytes := by
  rcases @Indexed.add_final_cases crypto pool tx feeSats now sound.indexed with
    trims | ⟨listed, left, made, final⟩
  · exact sound.trims trims
  · obtain ⟨sameSize, sameBytes⟩ := (made.trims sound.indexed).limits
    rw [final]
    exact ⟨made.indexed sound.indexed, made.bounded sound positive, sameSize.trans sound.size,
      sameBytes.trans sound.budget⟩

theorem Sound.admission (sound : pool.Sound network.crypto maxSize maxBytes)
    (positive : 1 ≤ maxSize) (chain : Chain) :
    (Retained.final (admitWithChainFee network chain now tx) pool).Sound network.crypto maxSize
      maxBytes := by
  rcases @admit_final_cases pool tx now network chain with final | ⟨fee, -, final⟩
  · rw [final]
    exact sound
  · rw [final]
    exact sound.add positive

end Add

theorem Sound.reorg (sound : pool.Sound network.crypto maxSize maxBytes)
    (positive : 1 ≤ maxSize) (chain : Chain) (now : Nat) (rolledBackTxs : List Transaction) :
    (handleReorg network chain now rolledBackTxs pool).Sound network.crypto maxSize
      maxBytes := by
  rw [handleReorg]
  generalize (pool.entries.toList.filter _).map Prod.fst = invalid
  have cleaned := sound.removeEntries invalid
  generalize pool.removeEntries invalid = left at cleaned
  induction rolledBackTxs generalizing left with
  | nil => exact cleaned
  | cons tx rolledBackTxs ih => exact ih _ (cleaned.admission positive chain)

theorem Sound.apply (sound : pool.Sound network.crypto maxSize maxBytes)
    (positive : 1 ≤ maxSize) (operation : Operation) :
    (operation.apply network pool).Sound network.crypto maxSize maxBytes := by
  cases operation with
  | add tx feeSats now => exact sound.add positive
  | remove txid => exact sound.removeEntries [txid]
  | confirm confirmedTxids spentOutpoints =>
      have removed := sound.removeEntries confirmedTxids
      simp only [Operation.apply, handleConfirmedBlock]
      split
      · exact removed
      · exact removed.removeEntries _
  | reorg chain now rolledBackTxs => exact sound.reorg positive chain now rolledBackTxs
  | evictStale nowSecs => exact sound.removeEntries _

theorem sound_withByteLimit (crypto : Crypto) (maxSize maxBytes : Nat) :
    (withByteLimit maxSize maxBytes).Sound crypto maxSize maxBytes where
  indexed := by
    constructor <;> simp [withByteLimit, Uses, Claims]
  bounded := by
    constructor <;> simp [withByteLimit, totalBytes]
  size := rfl
  budget := rfl

theorem sound_applyAll (network : Network) (operations : List Operation)
    (positive : 1 ≤ maxSize) :
    ((withByteLimit maxSize maxBytes).applyAll network operations).Sound network.crypto maxSize
      maxBytes := by
  have start := sound_withByteLimit network.crypto maxSize maxBytes
  unfold applyAll
  generalize withByteLimit maxSize maxBytes = pool at start
  induction operations generalizing pool with
  | nil => exact start
  | cons operation operations ih => exact ih _ (start.apply positive operation)

theorem Indexed.total_serializedSize (indexed : pool.Indexed crypto) :
    FiniteMap.total (fun entry => entry.tx.serializedSize) pool.entries = pool.totalBytes :=
  FiniteMap.total_congr fun txid entry held => (indexed.admissible txid entry held).sized.symm

/-- After any sequence of operations the indexes hold exactly the inputs and the claims of
the entries, no two entries share one, and both limits are kept. -/
theorem consistent_after_operations (network : Network) (operations : List Operation)
    (maxSize maxBytes : Nat) (positive : 1 ≤ maxSize) :
    let pool := (withByteLimit maxSize maxBytes).applyAll network operations
    (∀ outPoint txid, pool.spentInputs[outPoint]? = some txid ↔ pool.Uses txid outPoint) ∧
      (∀ address txid,
        pool.pendingClaims[address]? = some txid ↔ pool.Claims txid address) ∧
      (∀ outPoint first second, pool.Uses first outPoint → pool.Uses second outPoint →
        first = second) ∧
      (∀ address first second, pool.Claims first address → pool.Claims second address →
        first = second) ∧
      pool.entries.size ≤ maxSize ∧
      FiniteMap.total (fun entry => entry.tx.serializedSize) pool.entries ≤ maxBytes := by
  intro pool
  have sound : pool.Sound network.crypto maxSize maxBytes :=
    sound_applyAll network operations positive
  refine ⟨sound.indexed.spent, sound.indexed.claims,
    fun _ _ _ => sound.indexed.uses_unique, fun _ _ _ => sound.indexed.claims_unique, ?_, ?_⟩
  · exact sound.size ▸ sound.bounded.count
  · rw [sound.indexed.total_serializedSize]
    exact sound.budget ▸ sound.bounded.bytes

end Mempool

namespace Regtest

def payment (version : UInt32) (parent : Hash) (scriptPubkey : Bytes) : Transaction where
  version := version
  txType := .standard
  inputs := [⟨parent, 0, [], 0⟩]
  outputs := [⟨1000, scriptPubkey⟩]
  lockTime := 0
  claimAddress := none
  claimSignature := none

def fundedPayment (version : UInt32) : Transaction :=
  payment version (digest 32 [version.toUInt8]) [0x51]

def parentPayment : Transaction := payment 1 zeroHash [0x51]
def childPayment : Transaction := payment 2 (parentPayment.txid crypto) [0x51]

end Regtest

/-- Two payments on a pool with one slot. -/
theorem consistent_after_two_payments :
    1 ≤ 1 ∧
      ((Mempool.withByteLimit 1 1000).applyAll Regtest.network
        [.add Regtest.parentPayment 1000 0, .add Regtest.childPayment 2000 0]).entries.size ≤ 1 :=
  ⟨le_rfl, (Mempool.consistent_after_operations Regtest.network _ 1 1000 le_rfl).2.2.2.2.1⟩

end Vtorrent
