import Vtorrent.Chain
import Vtorrent.FiniteMapFilters

/-!
# The pool of orphan blocks

A block whose parent is unknown waits in a bounded pool until the parent arrives.  The
pool is a map by block hash, a queue of the hashes from the oldest on, and a count of the
bytes; when the pool is full the oldest orphans go.
-/

namespace Vtorrent

open Std

def maxOrphanBlocks : Nat := 64

def maxOrphanBytes : Nat := 16 * 1024 * 1024

/-- A waiting block with the peer that sent it and its size on the wire. -/
structure OrphanBlock where
  block : Block
  peerAddr : String
  peerVersion : UInt32
  sizeBytes : Nat

structure OrphanPool where
  orphanBlocks : ExtTreeMap Hash OrphanBlock
  orphanOrder : List Hash
  orphanBytes : Nat

namespace OrphanPool

def empty : OrphanPool := ⟨∅, [], 0⟩

/-- `usize::saturating_add`. -/
def saturatingAddUsize (first second : Nat) : Nat := min (first + second) (2 ^ 64 - 1)

/-- There are too many orphans, or too many bytes once a block of a size is added. -/
def Crowded (size : Nat) (pool : OrphanPool) : Prop :=
  pool.orphanBlocks.size ≥ maxOrphanBlocks ∨
    saturatingAddUsize pool.orphanBytes size > maxOrphanBytes

instance (size : Nat) (pool : OrphanPool) : Decidable (pool.Crowded size) :=
  inferInstanceAs (Decidable (_ ∨ _))

def remove (hash : Hash) (pool : OrphanPool) : OrphanPool :=
  match pool.orphanBlocks[hash]? with
  | none => pool
  | some removed =>
      { pool with
        orphanBlocks := pool.orphanBlocks.erase hash
        orphanBytes := pool.orphanBytes - removed.sizeBytes }

def makeRoom (size : Nat) : List Hash → OrphanPool → OrphanPool
  | [], pool => pool
  | oldest :: order, pool =>
      if pool.Crowded size then
        makeRoom size order (remove oldest { pool with orphanOrder := order })
      else pool

/-- `queue_orphan`. -/
def queueOrphan (crypto : Crypto) (block : Block) (peerAddr : String) (peerVersion : UInt32)
    (sizeBytes : Nat) (pool : OrphanPool) : Bool × OrphanPool :=
  let hash := block.hash crypto
  if hash ∈ pool.orphanBlocks ∨ sizeBytes > maxOrphanBytes then (false, pool)
  else
    let room := makeRoom sizeBytes pool.orphanOrder pool
    (true, {
      orphanBytes := saturatingAddUsize room.orphanBytes sizeBytes
      orphanOrder := room.orphanOrder ++ [hash]
      orphanBlocks := room.orphanBlocks.insert hash ⟨block, peerAddr, peerVersion, sizeBytes⟩ })

def removeEach : List Hash → OrphanPool → List OrphanBlock × OrphanPool
  | [], pool => ([], pool)
  | hash :: hashes, pool =>
      let rest := removeEach hashes (pool.remove hash)
      (pool.orphanBlocks[hash]?.toList ++ rest.1, rest.2)

def childHashes (keyOrder : KeyOrder) (parentHash : Hash) (pool : OrphanPool) : List Hash :=
  (keyOrder.order pool.orphanBlocks.keys).filter fun hash =>
    pool.orphanBlocks[hash]?.any fun orphan => orphan.block.header.prevBlockHash = parentHash

/-- `take_orphan_children`. -/
def takeOrphanChildren (keyOrder : KeyOrder) (parentHash : Hash) (pool : OrphanPool) :
    List OrphanBlock × OrphanPool :=
  let children := pool.childHashes keyOrder parentHash
  if children.isEmpty then ([], pool)
  else
    removeEach children
      { pool with orphanOrder := pool.orphanOrder.filter fun hash => hash ∉ children }

end OrphanPool

/-- A call that changes the orphan pool. -/
inductive OrphanCall where
  | queueOrphan (block : Block) (peerAddr : String) (peerVersion : UInt32) (sizeBytes : Nat)
  | takeOrphanChildren (keyOrder : KeyOrder) (parentHash : Hash)

def OrphanCall.perform (crypto : Crypto) (pool : OrphanPool) : OrphanCall → OrphanPool
  | .queueOrphan block peerAddr peerVersion sizeBytes =>
      (pool.queueOrphan crypto block peerAddr peerVersion sizeBytes).2
  | .takeOrphanChildren keyOrder parentHash => (pool.takeOrphanChildren keyOrder parentHash).2

def OrphanCall.inserts (crypto : Crypto) (pool : OrphanPool) : OrphanCall → List Hash
  | .queueOrphan block peerAddr peerVersion sizeBytes =>
      if (pool.queueOrphan crypto block peerAddr peerVersion sizeBytes).1 then
        [block.hash crypto]
      else []
  | .takeOrphanChildren _ _ => []

namespace OrphanPool

def performAll (crypto : Crypto) : List OrphanCall → OrphanPool → OrphanPool
  | [], pool => pool
  | call :: calls, pool => performAll crypto calls (call.perform crypto pool)

def inserted (crypto : Crypto) : List OrphanCall → OrphanPool → List Hash
  | [], _ => []
  | call :: calls, pool =>
      call.inserts crypto pool ++ inserted crypto calls (call.perform crypto pool)

/-- The queue holds the stored hashes in the order of their last insertions, and the bytes
are counted. -/
structure Kept (log : List Hash) (pool : OrphanPool) : Prop where
  ordered : pool.orphanOrder = log.dedup.filter (· ∈ pool.orphanBlocks)
  counted : pool.orphanBytes = FiniteMap.total OrphanBlock.sizeBytes pool.orphanBlocks
  logged : ∀ hash ∈ pool.orphanBlocks, hash ∈ log

/-- Moreover neither bound is exceeded. -/
structure Sound (log : List Hash) (pool : OrphanPool) : Prop extends Kept log pool where
  few : pool.orphanBlocks.size ≤ maxOrphanBlocks
  small : pool.orphanBytes ≤ maxOrphanBytes

section Kept

variable {log : List Hash} {pool : OrphanPool}

theorem Kept.nodup (kept : Kept log pool) : pool.orphanOrder.Nodup := by
  rw [kept.ordered]
  exact (List.nodup_dedup log).filter _

theorem Kept.mem_order (kept : Kept log pool) {hash : Hash} :
    hash ∈ pool.orphanOrder ↔ hash ∈ pool.orphanBlocks := by
  rw [kept.ordered, List.mem_filter, List.mem_dedup, decide_eq_true_iff]
  exact ⟨And.right, fun held => ⟨kept.logged hash held, held⟩⟩

theorem Kept.order_of_left (kept : Kept log pool) {left : ExtTreeMap Hash OrphanBlock}
    (subset : ∀ hash ∈ left, hash ∈ pool.orphanBlocks) :
    pool.orphanOrder.filter (· ∈ left) = log.dedup.filter (· ∈ left) := by
  rw [kept.ordered, List.filter_filter]
  refine List.filter_congr fun hash _ => ?_
  by_cases held : hash ∈ left <;> simp [held, subset]

theorem orphanBlocks_remove (hash : Hash) (pool : OrphanPool) :
    (pool.remove hash).orphanBlocks = pool.orphanBlocks.erase hash := by
  unfold remove
  split
  · rename_i absent
    apply ExtTreeMap.ext_getElem?
    intro other
    rw [ExtTreeMap.getElem?_erase]
    split
    · rename_i same
      rw [← LawfulEqOrd.eq_of_compare same, absent]
    · rfl
  · rfl

theorem orphanOrder_remove (hash : Hash) (pool : OrphanPool) :
    (pool.remove hash).orphanOrder = pool.orphanOrder := by
  unfold remove
  split <;> rfl

theorem counted_remove {hash : Hash}
    (counted : pool.orphanBytes = FiniteMap.total OrphanBlock.sizeBytes pool.orphanBlocks) :
    (pool.remove hash).orphanBytes =
      FiniteMap.total OrphanBlock.sizeBytes (pool.remove hash).orphanBlocks := by
  unfold remove
  split
  · exact counted
  · rename_i orphan held
    have whole := FiniteMap.total_erase OrphanBlock.sizeBytes held
    dsimp only
    omega

theorem Kept.pop (kept : Kept log pool) {oldest : Hash} {order : List Hash}
    (front : pool.orphanOrder = oldest :: order) :
    Kept log (remove oldest { pool with orphanOrder := order }) := by
  have distinct := kept.nodup
  rw [front, List.nodup_cons] at distinct
  have subset : ∀ hash ∈ pool.orphanBlocks.erase oldest, hash ∈ pool.orphanBlocks :=
    fun hash held => ExtTreeMap.mem_of_mem_erase held
  have blocks := orphanBlocks_remove oldest { pool with orphanOrder := order }
  refine ⟨?_, counted_remove kept.counted, ?_⟩
  · rw [orphanOrder_remove, blocks, ← kept.order_of_left subset, front,
      List.filter_cons_of_neg (by simp)]
    refine (List.filter_eq_self.mpr fun hash member => ?_).symm
    have different : hash ≠ oldest := by
      rintro rfl
      exact distinct.1 member
    have held : hash ∈ pool.orphanBlocks := by
      rw [← kept.mem_order, front]
      exact List.mem_cons_of_mem _ member
    simp [ExtTreeMap.mem_erase, held, Ne.symm different]
  · rw [blocks]
    exact fun hash held => kept.logged hash (subset hash held)

theorem Kept.eq_empty (kept : Kept log pool) (none : pool.orphanOrder = []) :
    pool.orphanBlocks = ∅ := by
  apply ExtTreeMap.ext_getElem?
  intro hash
  rw [ExtTreeMap.getElem?_empty]
  apply ExtTreeMap.getElem?_eq_none
  intro held
  rw [← kept.mem_order, none] at held
  cases held

theorem Kept.makeRoom {size : Nat} (acceptable : size ≤ maxOrphanBytes) (kept : Kept log pool)
    {order : List Hash} (queue : pool.orphanOrder = order) :
    Kept log (makeRoom size order pool) ∧ ¬ (makeRoom size order pool).Crowded size ∧
      ∀ hash ∈ (OrphanPool.makeRoom size order pool).orphanBlocks, hash ∈ pool.orphanBlocks := by
  induction order generalizing pool with
  | nil =>
      refine ⟨kept, ?_, fun hash held => held⟩
      have bytes := kept.counted
      rw [kept.eq_empty queue, FiniteMap.total_empty] at bytes
      rw [OrphanPool.makeRoom, Crowded, kept.eq_empty queue, bytes, saturatingAddUsize,
        ExtTreeMap.size_empty, maxOrphanBlocks]
      omega
  | cons oldest order ih =>
      rw [OrphanPool.makeRoom]
      split
      · obtain ⟨still, roomy, subset⟩ := ih (kept.pop queue) (orphanOrder_remove _ _)
        refine ⟨still, roomy, fun hash held => ?_⟩
        have earlier := subset hash held
        rw [orphanBlocks_remove] at earlier
        exact ExtTreeMap.mem_of_mem_erase earlier
      · rename_i roomy
        exact ⟨kept, roomy, fun hash held => held⟩

end Kept

section Step

variable {crypto : Crypto} {log : List Hash} {pool : OrphanPool}

theorem dedup_append_singleton (log : List Hash) (hash : Hash) :
    (log ++ [hash]).dedup = log.dedup.filter (· ≠ hash) ++ [hash] := by
  induction log with
  | nil => rfl
  | cons first log ih =>
      rw [List.cons_append]
      by_cases same : first = hash
      · rw [List.dedup_cons_of_mem (by simp [same]), ih]
        by_cases member : first ∈ log
        · rw [List.dedup_cons_of_mem member]
        · rw [List.dedup_cons_of_notMem member, List.filter_cons_of_neg (by simp [same])]
      · by_cases member : first ∈ log
        · rw [List.dedup_cons_of_mem (by simp [member]), ih, List.dedup_cons_of_mem member]
        · rw [List.dedup_cons_of_notMem (by simp [member, same]), ih,
            List.dedup_cons_of_notMem member, List.filter_cons_of_pos (by simp [same]),
            List.cons_append]

theorem Kept.insert (kept : Kept log pool) {hash : Hash} (absent : hash ∉ pool.orphanBlocks)
    (orphan : OrphanBlock) :
    Kept (log ++ [hash])
      { orphanBytes := pool.orphanBytes + orphan.sizeBytes
        orphanOrder := pool.orphanOrder ++ [hash]
        orphanBlocks := pool.orphanBlocks.insert hash orphan } where
  ordered := by
    rw [dedup_append_singleton, List.filter_append, List.filter_filter, kept.ordered]
    dsimp only
    congr 1
    · refine List.filter_congr fun other _ => ?_
      by_cases same : other = hash
      · simp [same, absent]
      · simp [same, Ne.symm same]
    · simp
  counted := by
    dsimp only
    rw [FiniteMap.total_insert _ _ absent, kept.counted, Nat.add_comm]
  logged := by
    intro other held
    rw [ExtTreeMap.mem_insert] at held
    rcases held with same | old
    · rw [← LawfulEqOrd.eq_of_compare same]
      simp
    · exact List.mem_append_left _ (kept.logged other old)

theorem Sound.queueOrphan (sound : Sound log pool) (block : Block) (peerAddr : String)
    (peerVersion : UInt32) (sizeBytes : Nat) :
    Sound (log ++
        OrphanCall.inserts crypto pool (.queueOrphan block peerAddr peerVersion sizeBytes))
      (pool.queueOrphan crypto block peerAddr peerVersion sizeBytes).2 := by
  simp only [OrphanCall.inserts]
  unfold OrphanPool.queueOrphan
  dsimp only
  split
  · simpa using sound
  · rename_i fresh
    rw [not_or, Nat.not_lt] at fresh
    obtain ⟨kept, roomy, subset⟩ := sound.toKept.makeRoom fresh.2 rfl
    rw [Crowded, not_or, Nat.not_le, Nat.not_lt] at roomy
    have absent : block.hash crypto ∉
        (OrphanPool.makeRoom sizeBytes pool.orphanOrder pool).orphanBlocks :=
      fun held => fresh.1 (subset _ held)
    have exact_bytes : saturatingAddUsize
        (OrphanPool.makeRoom sizeBytes pool.orphanOrder pool).orphanBytes sizeBytes =
        (OrphanPool.makeRoom sizeBytes pool.orphanOrder pool).orphanBytes + sizeBytes := by
      have bound := roomy.2
      rw [saturatingAddUsize] at bound ⊢
      rw [maxOrphanBytes] at bound
      omega
    rw [exact_bytes] at roomy ⊢
    refine ⟨kept.insert absent ⟨block, peerAddr, peerVersion, sizeBytes⟩, ?_, roomy.2⟩
    dsimp only
    rw [ExtTreeMap.size_insert, if_neg (mt ExtTreeMap.mem_iff_contains.mpr absent)]
    exact roomy.1

theorem getElem?_removeEach (hashes : List Hash) (pool : OrphanPool) (hash : Hash) :
    (pool.removeEach hashes).2.orphanBlocks[hash]? =
      if hash ∈ hashes then none else pool.orphanBlocks[hash]? := by
  induction hashes generalizing pool with
  | nil => rfl
  | cons first hashes ih =>
      rw [removeEach, ih, orphanBlocks_remove, ExtTreeMap.getElem?_erase]
      by_cases same : first = hash
      · simp [same]
      · simp [same, Ne.symm same]

theorem orphanOrder_removeEach (hashes : List Hash) (pool : OrphanPool) :
    (pool.removeEach hashes).2.orphanOrder = pool.orphanOrder := by
  induction hashes generalizing pool with
  | nil => rfl
  | cons first hashes ih => rw [removeEach, ih, orphanOrder_remove]

theorem counted_removeEach {hashes : List Hash}
    (counted : pool.orphanBytes = FiniteMap.total OrphanBlock.sizeBytes pool.orphanBlocks) :
    (pool.removeEach hashes).2.orphanBytes =
      FiniteMap.total OrphanBlock.sizeBytes (pool.removeEach hashes).2.orphanBlocks := by
  induction hashes generalizing pool with
  | nil => exact counted
  | cons first hashes ih => exact ih (counted_remove counted)

theorem fst_removeEach {hashes : List Hash} (distinct : hashes.Nodup) :
    (pool.removeEach hashes).1 = hashes.filterMap fun hash => pool.orphanBlocks[hash]? := by
  induction hashes generalizing pool with
  | nil => rfl
  | cons first hashes ih =>
      rw [List.nodup_cons] at distinct
      have others : ∀ hash ∈ hashes,
          (pool.orphanBlocks.erase first)[hash]? = pool.orphanBlocks[hash]? := by
        intro hash member
        apply FiniteMap.getElem?_erase_of_ne
        rintro rfl
        exact distinct.1 member
      rw [removeEach, ih distinct.2, orphanBlocks_remove, List.filterMap_congr others]
      cases held : pool.orphanBlocks[first]? with
      | none => rw [List.filterMap_cons_none held]; rfl
      | some orphan => rw [List.filterMap_cons_some held]; rfl

theorem mem_childHashes {keyOrder : KeyOrder} {parentHash hash : Hash} :
    hash ∈ pool.childHashes keyOrder parentHash ↔
      ∃ orphan, pool.orphanBlocks[hash]? = some orphan ∧
        orphan.block.header.prevBlockHash = parentHash := by
  rw [childHashes, List.mem_filter, (keyOrder.perm _).mem_iff, ExtTreeMap.mem_keys,
    Option.any_eq_true]
  simp only [decide_eq_true_eq]
  constructor
  · exact And.right
  · rintro ⟨orphan, held, child⟩
    exact ⟨ExtTreeMap.mem_iff_isSome_getElem?.mpr (by simp [held]), orphan, held, child⟩

theorem takeOrphanChildren_eq (keyOrder : KeyOrder) (parentHash : Hash) (pool : OrphanPool) :
    pool.takeOrphanChildren keyOrder parentHash =
      removeEach (pool.childHashes keyOrder parentHash)
        { pool with orphanOrder := pool.orphanOrder.filter fun hash =>
            hash ∉ pool.childHashes keyOrder parentHash } := by
  unfold takeOrphanChildren
  dsimp only
  split
  · rename_i none
    rw [List.isEmpty_iff] at none
    simp [none, removeEach]
  · rfl

theorem orphanBlocks_takeOrphanChildren (keyOrder : KeyOrder) (parentHash : Hash)
    (pool : OrphanPool) :
    (pool.takeOrphanChildren keyOrder parentHash).2.orphanBlocks =
      pool.orphanBlocks.filter fun _ orphan =>
        orphan.block.header.prevBlockHash ≠ parentHash := by
  apply ExtTreeMap.ext_getElem?
  intro hash
  rw [takeOrphanChildren_eq, getElem?_removeEach, FiniteMap.getElem?_filter]
  cases held : pool.orphanBlocks[hash]? with
  | none => simp
  | some orphan =>
      by_cases child : orphan.block.header.prevBlockHash = parentHash
      · simp [mem_childHashes, held, child, Option.filter]
      · simp [mem_childHashes, held, child, Option.filter]

theorem takeOrphanChildren_perm (keyOrder : KeyOrder) (parentHash : Hash) (pool : OrphanPool) :
    (pool.takeOrphanChildren keyOrder parentHash).1.Perm
      (FiniteMap.values (pool.orphanBlocks.filter fun _ orphan =>
        orphan.block.header.prevBlockHash = parentHash)) := by
  have distinct : (pool.childHashes keyOrder parentHash).Nodup :=
    ((keyOrder.perm _).nodup_iff.mpr pool.orphanBlocks.nodup_keys).filter _
  rw [takeOrphanChildren_eq, fst_removeEach distinct]
  have keys := ((keyOrder.perm pool.orphanBlocks.keys).filter fun hash =>
    pool.orphanBlocks[hash]?.any fun orphan =>
      decide (orphan.block.header.prevBlockHash = parentHash)).filterMap
        fun hash => pool.orphanBlocks[hash]?
  refine keys.trans (List.Perm.of_eq ?_)
  rw [FiniteMap.values, ExtTreeMap.toList_filter, ← ExtTreeMap.map_fst_toList_eq_keys]
  have entries : ∀ entry ∈ pool.orphanBlocks.toList,
      pool.orphanBlocks[entry.1]? = some entry.2 := fun entry member =>
    ExtTreeMap.mem_toList_iff_getElem?_eq_some.mp member
  revert entries
  generalize pool.orphanBlocks.toList = list
  intro entries
  induction list with
  | nil => rfl
  | cons entry list ih =>
      have held := entries entry (by simp)
      have rest := ih fun other member => entries other (by simp [member])
      by_cases child : entry.2.block.header.prevBlockHash = parentHash
      · simpa [held, child] using rest
      · simpa [held, child] using rest

theorem Sound.takeOrphanChildren (sound : Sound log pool) (keyOrder : KeyOrder)
    (parentHash : Hash) :
    Sound log (pool.takeOrphanChildren keyOrder parentHash).2 := by
  have blocks := orphanBlocks_takeOrphanChildren keyOrder parentHash pool
  have counted : (pool.takeOrphanChildren keyOrder parentHash).2.orphanBytes =
      FiniteMap.total OrphanBlock.sizeBytes
        (pool.takeOrphanChildren keyOrder parentHash).2.orphanBlocks := by
    rw [takeOrphanChildren_eq]
    exact counted_removeEach sound.counted
  have subset : ∀ hash ∈ (pool.takeOrphanChildren keyOrder parentHash).2.orphanBlocks,
      hash ∈ pool.orphanBlocks := by
    rw [blocks]
    exact fun hash held => ExtTreeMap.mem_of_mem_filter held
  refine ⟨⟨?_, counted, fun hash held => sound.logged hash (subset hash held)⟩, ?_, ?_⟩
  · rw [← sound.order_of_left subset, takeOrphanChildren_eq, orphanOrder_removeEach]
    refine List.filter_congr fun hash member => ?_
    rw [sound.mem_order, ExtTreeMap.mem_iff_isSome_getElem?] at member
    rw [decide_eq_decide, ExtTreeMap.mem_iff_isSome_getElem?, getElem?_removeEach]
    by_cases child : hash ∈ pool.childHashes keyOrder parentHash
    · simp [child]
    · simpa [child] using member
  · rw [blocks]
    exact ExtTreeMap.size_filter_le_size.trans sound.few
  · rw [counted, blocks]
    refine (FiniteMap.total_filter_le _ _ _).trans ?_
    rw [← sound.counted]
    exact sound.small

theorem Sound.perform (sound : Sound log pool) (call : OrphanCall) :
    Sound (log ++ call.inserts crypto pool) (call.perform crypto pool) := by
  cases call with
  | queueOrphan block peerAddr peerVersion sizeBytes =>
      exact sound.queueOrphan block peerAddr peerVersion sizeBytes
  | takeOrphanChildren keyOrder parentHash =>
      rw [OrphanCall.inserts, List.append_nil]
      exact sound.takeOrphanChildren keyOrder parentHash

theorem Sound.performAll (sound : Sound log pool) (calls : List OrphanCall) :
    Sound (log ++ inserted crypto calls pool) (performAll crypto calls pool) := by
  induction calls generalizing log pool with
  | nil => simpa [inserted, OrphanPool.performAll] using sound
  | cons call calls ih =>
      rw [inserted, ← List.append_assoc]
      exact ih (sound.perform call)

end Step

theorem sound_empty : Sound [] empty where
  ordered := rfl
  counted := rfl
  logged := fun hash held => absurd held ExtTreeMap.not_mem_empty
  few := by simp [empty]
  small := by simp [empty]

/-- After any calls on an empty pool, the queue lists the stored hashes once each in the order
of their insertions, the bytes are those stored, neither bound is exceeded, and taking the
children of a block removes and returns exactly the orphans with that parent. -/
theorem orphanPool_sound (crypto : Crypto) (calls : List OrphanCall) :
    let pool := performAll crypto calls empty
    pool.orphanOrder = (inserted crypto calls empty).dedup.filter (· ∈ pool.orphanBlocks) ∧
    pool.orphanOrder.Nodup ∧
    (∀ hash, hash ∈ pool.orphanOrder ↔ hash ∈ pool.orphanBlocks) ∧
    pool.orphanBytes = FiniteMap.total OrphanBlock.sizeBytes pool.orphanBlocks ∧
    pool.orphanBlocks.size ≤ maxOrphanBlocks ∧
    pool.orphanBytes ≤ maxOrphanBytes ∧
    ∀ keyOrder parentHash,
      let (taken, left) := pool.takeOrphanChildren keyOrder parentHash
      taken.Perm (FiniteMap.values (pool.orphanBlocks.filter fun _ orphan =>
        orphan.block.header.prevBlockHash = parentHash)) ∧
      left.orphanBlocks = pool.orphanBlocks.filter fun _ orphan =>
        orphan.block.header.prevBlockHash ≠ parentHash := by
  intro pool
  have sound : Sound (inserted crypto calls empty) pool := by
    simpa using @Sound.performAll crypto [] empty sound_empty calls
  exact ⟨sound.ordered, sound.nodup, fun hash => sound.mem_order, sound.counted, sound.few,
    sound.small, fun keyOrder parentHash =>
      ⟨takeOrphanChildren_perm keyOrder parentHash pool,
        orphanBlocks_takeOrphanChildren keyOrder parentHash pool⟩⟩

end OrphanPool

end Vtorrent
