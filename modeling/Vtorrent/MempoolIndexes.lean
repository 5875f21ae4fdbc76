import Vtorrent.FiniteMapFilters
import Vtorrent.Lineages
import Vtorrent.Mempool

/-!
# The indexes of the mempool

An indexed pool records exactly the inputs and the claims of its entries.  On such a pool
every removal is described by the set of removed ids: removing entries one after another,
or generation by generation, leaves the pool without that set, with both indexes cut down
to what remains.
-/

namespace Vtorrent

open Std

namespace Mempool

variable {crypto : Crypto} {pool : Mempool}

def Uses (pool : Mempool) (txid : Hash) (outPoint : OutPoint) : Prop :=
  ∃ entry, pool.entries[txid]? = some entry ∧
    ∃ input ∈ entry.tx.inputs, input.outPoint = outPoint

def Claims (pool : Mempool) (txid : Hash) (address : String) : Prop :=
  ∃ entry, pool.entries[txid]? = some entry ∧ entry.tx.pendingClaim = some address

/-- What an entry had to satisfy when it was admitted. -/
structure Admissible (entry : MempoolEntry) : Prop where
  valid : validateTransaction entry.tx = .ok ()
  paid : entry.tx.isLegacyClaim = false → minRelayFee ≤ entry.feeSats
  sized : entry.sizeBytes = entry.tx.serializedSize

/-- Both indexes record exactly what the entries use. -/
structure Indexed (crypto : Crypto) (pool : Mempool) : Prop where
  keyed : ∀ (txid : Hash) (entry : MempoolEntry), pool.entries[txid]? = some entry →
    entry.tx.txid crypto = txid
  admissible : ∀ (txid : Hash) (entry : MempoolEntry), pool.entries[txid]? = some entry →
    Admissible entry
  spent : ∀ (outPoint : OutPoint) (txid : Hash),
    pool.spentInputs[outPoint]? = some txid ↔ pool.Uses txid outPoint
  claims : ∀ (address : String) (txid : Hash),
    pool.pendingClaims[address]? = some txid ↔ pool.Claims txid address

theorem Indexed.uses_unique (indexed : pool.Indexed crypto) {first second : Hash}
    {outPoint : OutPoint} (inFirst : pool.Uses first outPoint)
    (inSecond : pool.Uses second outPoint) : first = second := by
  have recorded := (indexed.spent outPoint first).mpr inFirst
  rw [(indexed.spent outPoint second).mpr inSecond] at recorded
  exact (Option.some.inj recorded).symm

theorem Indexed.claims_unique (indexed : pool.Indexed crypto) {first second : Hash}
    {address : String} (inFirst : pool.Claims first address)
    (inSecond : pool.Claims second address) : first = second := by
  have recorded := (indexed.claims address first).mpr inFirst
  rw [(indexed.claims address second).mpr inSecond] at recorded
  exact (Option.some.inj recorded).symm

section Without

open Classical in
noncomputable def without (pool : Mempool) (removed : Set Hash) : Mempool :=
  { pool with
    entries := pool.entries.filter fun txid _ => decide (txid ∉ removed)
    spentInputs := pool.spentInputs.filter fun _ txid => decide (txid ∉ removed)
    pendingClaims := pool.pendingClaims.filter fun _ txid => decide (txid ∉ removed) }

variable {removed : Set Hash}

open Classical in
theorem entries_without (txid : Hash) :
    (pool.without removed).entries[txid]? =
      if txid ∈ removed then none else pool.entries[txid]? := by
  rw [without, FiniteMap.getElem?_filter]
  by_cases gone : txid ∈ removed
  · cases pool.entries[txid]? <;> simp [gone, Option.filter]
  · cases pool.entries[txid]? <;> simp [gone, Option.filter]

theorem entries_without_eq_some {txid : Hash} {entry : MempoolEntry} :
    (pool.without removed).entries[txid]? = some entry ↔
      txid ∉ removed ∧ pool.entries[txid]? = some entry := by
  rw [entries_without]
  by_cases gone : txid ∈ removed <;> simp [gone]

theorem spentInputs_without_eq_some {outPoint : OutPoint} {txid : Hash} :
    (pool.without removed).spentInputs[outPoint]? = some txid ↔
      txid ∉ removed ∧ pool.spentInputs[outPoint]? = some txid := by
  rw [without, FiniteMap.getElem?_filter, Option.filter_eq_some_iff]
  simp [and_comm]

theorem pendingClaims_without_eq_some {address : String} {txid : Hash} :
    (pool.without removed).pendingClaims[address]? = some txid ↔
      txid ∉ removed ∧ pool.pendingClaims[address]? = some txid := by
  rw [without, FiniteMap.getElem?_filter, Option.filter_eq_some_iff]
  simp [and_comm]

theorem uses_without {txid : Hash} {outPoint : OutPoint} :
    (pool.without removed).Uses txid outPoint ↔ txid ∉ removed ∧ pool.Uses txid outPoint := by
  simp only [Uses, entries_without_eq_some]
  tauto

theorem claims_without {txid : Hash} {address : String} :
    (pool.without removed).Claims txid address ↔ txid ∉ removed ∧ pool.Claims txid address := by
  simp only [Claims, entries_without_eq_some]
  tauto

theorem Indexed.without (indexed : pool.Indexed crypto) (removed : Set Hash) :
    (pool.without removed).Indexed crypto where
  keyed txid entry held := indexed.keyed txid entry (entries_without_eq_some.mp held).2
  admissible txid entry held :=
    indexed.admissible txid entry (entries_without_eq_some.mp held).2
  spent outPoint txid := by
    rw [spentInputs_without_eq_some, uses_without, indexed.spent]
  claims address txid := by
    rw [pendingClaims_without_eq_some, claims_without, indexed.claims]

theorem Indexed.ext {other : Mempool} (indexed : pool.Indexed crypto)
    (otherIndexed : other.Indexed crypto) (entries : pool.entries = other.entries)
    (maxSize : pool.maxSize = other.maxSize) (maxBytes : pool.maxBytes = other.maxBytes)
    (minFeeRate : pool.minFeeRate = other.minFeeRate) : pool = other := by
  have spent : pool.spentInputs = other.spentInputs := by
    apply ExtTreeMap.ext_getElem?
    intro outPoint
    apply Option.ext
    intro txid
    rw [indexed.spent, otherIndexed.spent, Uses, Uses, entries]
  have claims : pool.pendingClaims = other.pendingClaims := by
    apply ExtTreeMap.ext_getElem?
    intro address
    apply Option.ext
    intro txid
    rw [indexed.claims, otherIndexed.claims, Claims, Claims, entries]
  exact Mempool.ext entries claims spent maxSize maxBytes minFeeRate

theorem without_without (removed more : Set Hash) :
    (pool.without removed).without more = pool.without (removed ∪ more) := by
  have entries : ((pool.without removed).without more).entries =
      (pool.without (removed ∪ more)).entries := by
    apply ExtTreeMap.ext_getElem?
    intro txid
    apply Option.ext
    intro entry
    simp only [entries_without_eq_some, Set.mem_union]
    tauto
  have spent : ((pool.without removed).without more).spentInputs =
      (pool.without (removed ∪ more)).spentInputs := by
    apply ExtTreeMap.ext_getElem?
    intro outPoint
    apply Option.ext
    intro txid
    simp only [spentInputs_without_eq_some, Set.mem_union]
    tauto
  have claims : ((pool.without removed).without more).pendingClaims =
      (pool.without (removed ∪ more)).pendingClaims := by
    apply ExtTreeMap.ext_getElem?
    intro address
    apply Option.ext
    intro txid
    simp only [pendingClaims_without_eq_some, Set.mem_union]
    tauto
  exact Mempool.ext entries claims spent rfl rfl rfl

theorem Indexed.without_of_disjoint (indexed : pool.Indexed crypto)
    (absent : ∀ txid ∈ removed, pool.entries[txid]? = none) : pool.without removed = pool := by
  refine Indexed.ext (indexed.without removed) indexed ?_ rfl rfl rfl
  apply ExtTreeMap.ext_getElem?
  intro txid
  rw [entries_without]
  split
  · exact (absent txid ‹_›).symm
  · rfl

end Without

section Removal

theorem getElem?_dropClaim {pending : ExtTreeMap String Hash} {txid : Hash}
    {claim : Option String}
    (own : ∀ address, pending[address]? = some txid ↔ claim = some address)
    (address : String) (owner : Hash) :
    (dropClaim txid claim pending)[address]? = some owner ↔
      owner ≠ txid ∧ pending[address]? = some owner := by
  unfold dropClaim
  cases claim with
  | none =>
      refine ⟨fun recorded => ⟨?_, recorded⟩, And.right⟩
      rintro rfl
      exact absurd ((own address).mp recorded) (by simp)
  | some claimed =>
      simp only [(own claimed).mpr rfl, if_true, ExtTreeMap.getElem?_erase]
      by_cases same : claimed = address
      · subst same
        simp [(own claimed).mpr rfl, eq_comm]
      · simp only [LawfulEqOrd.compare_eq_iff_eq, same, if_false]
        refine ⟨fun recorded => ⟨?_, recorded⟩, And.right⟩
        rintro rfl
        exact same (Option.some.inj ((own address).mp recorded))

theorem Indexed.removeEntry (indexed : pool.Indexed crypto) (txid : Hash) :
    pool.removeEntry txid = pool.without {txid} := by
  unfold Mempool.removeEntry
  split
  · next absent => rw [indexed.without_of_disjoint (by simpa using absent)]
  · next entry held =>
      have own : ∀ address, pool.pendingClaims[address]? = some txid ↔
          entry.tx.pendingClaim = some address := by
        intro address
        rw [indexed.claims]
        simp [Claims, held]
      have entries : pool.entries.erase txid = (pool.without {txid}).entries := by
        apply ExtTreeMap.ext_getElem?
        intro other
        rw [entries_without, ExtTreeMap.getElem?_erase]
        by_cases same : txid = other
        · simp [same]
        · simp [same, Ne.symm same]
      have spent : entry.tx.inputs.foldl (fun index input => index.erase input.outPoint)
          pool.spentInputs = (pool.without {txid}).spentInputs := by
        apply ExtTreeMap.ext_getElem?
        intro outPoint
        apply Option.ext
        intro owner
        rw [spentInputs_without_eq_some, FiniteMap.getElem?_foldl_erase]
        have used : (∃ input ∈ entry.tx.inputs, input.outPoint = outPoint) ↔
            pool.spentInputs[outPoint]? = some txid := by
          rw [indexed.spent]
          simp [Uses, held]
        simp only [used]
        by_cases mine : pool.spentInputs[outPoint]? = some txid
        · simp [mine, eq_comm]
        · simp only [mine, if_false, Set.mem_singleton_iff]
          refine ⟨fun recorded => ⟨?_, recorded⟩, And.right⟩
          rintro rfl
          exact mine recorded
      have claims : dropClaim txid entry.tx.pendingClaim pool.pendingClaims =
          (pool.without {txid}).pendingClaims := by
        apply ExtTreeMap.ext_getElem?
        intro address
        apply Option.ext
        intro owner
        rw [pendingClaims_without_eq_some, getElem?_dropClaim own]
        simp
      rw [entries, spent, claims]
      rfl

theorem Indexed.removeEntries (indexed : pool.Indexed crypto) (txids : List Hash) :
    pool.removeEntries txids = pool.without {txid | txid ∈ txids} := by
  unfold Mempool.removeEntries
  induction txids generalizing pool with
  | nil =>
      rw [List.foldl_nil, indexed.without_of_disjoint]
      simp
  | cons txid txids ih =>
      rw [List.foldl_cons, indexed.removeEntry, ih (indexed.without _), without_without]
      congr 1
      ext other
      simp

end Removal

end Mempool

end Vtorrent
