import Vtorrent.MempoolIndexes

/-!
# Evictions

What the eviction loops of the pool remove.  An entry is removed together with its
lineage, the entries that spend its outputs, directly or through other entries.  Making
room removes the lineage of every entry up to a threshold in the order of eviction, for the
least threshold that leaves enough room.
-/

namespace Vtorrent

open Lineages
open Std (ExtTreeMap)

namespace Mempool

variable {crypto : Crypto} {pool : Mempool}

/-- An entry spends an output of a transaction. -/
def Spends (pool : Mempool) (parent child : Hash) : Prop :=
  ∃ outPoint, pool.Uses child outPoint ∧ outPoint.txid = parent

theorem spends_without (removed : Set Hash) :
    (pool.without removed).Spends = outside pool.Spends removed := by
  ext parent child
  simp only [Spends, uses_without, outside]
  tauto

theorem mem_ownersOf (indexed : pool.Indexed crypto) {condition : OutPoint → Bool}
    {txid : Hash} :
    txid ∈ pool.ownersOf condition ↔
      ∃ outPoint, pool.Uses txid outPoint ∧ condition outPoint = true := by
  simp only [ownersOf, List.mem_map, List.mem_filter, Prod.exists,
    ExtTreeMap.mem_toList_iff_getElem?_eq_some, indexed.spent]
  constructor
  · rintro ⟨outPoint, _, ⟨used, met⟩, rfl⟩
    exact ⟨outPoint, used, met⟩
  · rintro ⟨outPoint, used, met⟩
    exact ⟨outPoint, txid, ⟨used, met⟩, rfl⟩

theorem Uses.mem {txid : Hash} {outPoint : OutPoint} (used : pool.Uses txid outPoint) :
    ∃ entry, pool.entries[txid]? = some entry := by
  obtain ⟨entry, held, -⟩ := used
  exact ⟨entry, held⟩

theorem size_without_lt {removed : Set Hash} {txid : Hash} {entry : MempoolEntry}
    (held : pool.entries[txid]? = some entry) (gone : txid ∈ removed) :
    (pool.without removed).entries.size < pool.entries.size := by
  classical
  rw [← ExtTreeMap.length_toList, ← ExtTreeMap.length_toList, without,
    ExtTreeMap.toList_filter]
  apply List.length_filter_lt_length_iff_exists.mpr
  exact ⟨(txid, entry), ExtTreeMap.mem_toList_iff_getElem?_eq_some.mpr held, by simpa using gone⟩

section Descendants

theorem Indexed.evictDescendantsWithin (indexed : pool.Indexed crypto) {fuel : Nat}
    {frontier : List Hash} (enough : pool.entries.size ≤ fuel) :
    evictDescendantsWithin fuel frontier pool =
      pool.without (heirs pool.Spends {txid | txid ∈ frontier}) := by
  induction fuel generalizing frontier pool with
  | zero =>
      rw [Mempool.evictDescendantsWithin, indexed.without_of_disjoint]
      intro txid _
      have empty : pool.entries = ∅ := ExtTreeMap.eq_empty_iff_size_eq_zero.mpr (by omega)
      simp [empty]
  | succ fuel ih =>
      have owners : {txid | txid ∈ pool.ownersOf fun outPoint => frontier.contains outPoint.txid} =
          children pool.Spends {txid | txid ∈ frontier} := by
        ext txid
        simp only [Set.mem_ofPred_eq, mem_ownersOf indexed, List.contains_iff_mem, children,
          Spends]
        constructor
        · rintro ⟨outPoint, used, member⟩
          exact ⟨outPoint.txid, member, outPoint, used, rfl⟩
        · rintro ⟨_, member, outPoint, used, rfl⟩
          exact ⟨outPoint, used, member⟩
      rw [Mempool.evictDescendantsWithin, heirs_eq_lineage_children, ← owners]
      set doomed := pool.ownersOf fun outPoint => frontier.contains outPoint.txid with listed
      by_cases none : doomed.isEmpty
      · have nothing : {txid | txid ∈ doomed} = (∅ : Set Hash) := by
          rw [List.isEmpty_iff.mp none]
          simp
        have stays : lineage pool.Spends (∅ : Set Hash) = ∅ := by
          simp [lineage, heirs]
        rw [if_pos none, nothing, stays, indexed.without_of_disjoint (by simp)]
      · obtain ⟨txid, member⟩ := List.exists_mem_of_ne_nil doomed (by simpa using none)
        obtain ⟨outPoint, used, -⟩ := (mem_ownersOf indexed).mp member
        obtain ⟨entry, held⟩ := used.mem
        have fewer : (pool.without {txid | txid ∈ doomed}).entries.size < pool.entries.size :=
          size_without_lt held member
        rw [if_neg none, indexed.removeEntries, ih (indexed.without _) (by omega),
          spends_without, without_without, union_heirs_outside]

theorem Indexed.evictDescendants (indexed : pool.Indexed crypto) (frontier : List Hash) :
    pool.evictDescendants frontier =
      pool.without (heirs pool.Spends {txid | txid ∈ frontier}) :=
  indexed.evictDescendantsWithin le_rfl

theorem Indexed.removeLineage (indexed : pool.Indexed crypto) (txids : List Hash) :
    (pool.removeEntries txids).evictDescendants txids =
      pool.without (lineage pool.Spends {txid | txid ∈ txids}) := by
  rw [indexed.removeEntries, (indexed.without _).evictDescendants, spends_without,
    without_without, union_heirs_outside]

def Conflicting (pool : Mempool) (tx : Transaction) : Set Hash :=
  {txid | ∃ input ∈ tx.inputs, pool.Uses txid input.outPoint}

theorem mem_noteConflict {found : List Hash} {input : TxInput} {txid : Hash} :
    txid ∈ pool.noteConflict found input ↔
      txid ∈ found ∨ pool.spentInputs[input.outPoint]? = some txid := by
  unfold noteConflict
  split
  · next owner recorded =>
      by_cases known : owner ∈ found
      · rw [if_pos (by simpa using known), recorded, Option.some.injEq]
        refine ⟨.inl, ?_⟩
        rintro (old | rfl)
        · exact old
        · exact known
      · rw [if_neg (by simpa using known), recorded]
        simp [eq_comm]
  · next absent => simp [absent]

theorem mem_findConflicts (indexed : pool.Indexed crypto) {tx : Transaction} {txid : Hash} :
    txid ∈ pool.findConflicts tx ↔ txid ∈ pool.Conflicting tx := by
  have every : ∀ (inputs : List TxInput) (found : List Hash),
      txid ∈ inputs.foldl pool.noteConflict found ↔
        txid ∈ found ∨ ∃ input ∈ inputs, pool.spentInputs[input.outPoint]? = some txid := by
    intro inputs
    induction inputs with
    | nil => simp
    | cons input inputs ih =>
        intro found
        rw [List.foldl_cons, ih, mem_noteConflict]
        simp [or_assoc]
  rw [findConflicts, every]
  simp [Conflicting, indexed.spent]

/-- What can stay in the pool beside a transaction: the entries that do not descend from
a conflicting one. -/
noncomputable def beside (pool : Mempool) (tx : Transaction) : Mempool :=
  pool.without (lineage pool.Spends (pool.Conflicting tx))

theorem Indexed.replace (indexed : pool.Indexed crypto) (tx : Transaction) :
    pool.replace tx = pool.beside tx := by
  have same : {txid | txid ∈ pool.findConflicts tx} = pool.Conflicting tx := by
    ext txid
    exact mem_findConflicts indexed
  rw [Mempool.replace, indexed.removeLineage, same, beside]

theorem Indexed.evictVictim (indexed : pool.Indexed crypto) (victim : Hash) (rate : Nat) :
    pool.evictVictim victim rate =
      (pool.without (lineage pool.Spends {victim})).withFloor (rate + 1) := by
  have removed : (pool.removeEntry victim).evictDescendants [victim] =
      pool.without (lineage pool.Spends {victim}) := by
    have listed : {txid | txid ∈ [victim]} = ({victim} : Set Hash) := by
      ext
      simp
    rw [← listed, ← indexed.removeLineage]
    rfl
  rw [Mempool.evictVictim, removed]

end Descendants

section Threshold

abbrev EvictionRank := ℕ ×ₗ ℕ ×ₗ List ℕ

theorem txidRank_injective : Function.Injective txidRank := by
  intro first second same
  apply List.Vector.toList_injective
  exact List.map_injective_iff.mpr (fun _ _ => UInt8.toNat.inj) same

theorem evictionRank_injective {first second : Hash} {firstEntry secondEntry : MempoolEntry}
    (same : evictionRank first firstEntry = evictionRank second secondEntry) :
    first = second := by
  have parts := Prod.ext_iff.mp (toLex_inj.mp same)
  exact txidRank_injective (Prod.ext_iff.mp (toLex_inj.mp parts.2)).2

theorem feeRate_le_of_evictionRank_le {first second : Hash}
    {firstEntry secondEntry : MempoolEntry}
    (before : evictionRank first firstEntry ≤ evictionRank second secondEntry) :
    firstEntry.feeRate ≤ secondEntry.feeRate := by
  rcases Prod.Lex.toLex_le_toLex.mp before with less | ⟨same, -⟩
  · exact less.le
  · exact same.le

theorem lowestFeeRateEntry_eq_none (lowest : pool.lowestFeeRateEntry = none) :
    pool.entries = ∅ := by
  apply ExtTreeMap.eq_empty_iff_size_eq_zero.mpr
  rw [← ExtTreeMap.length_toList, List.argmin_eq_none.mp lowest]
  rfl

theorem lowestFeeRateEntry_eq_some {victim : Hash} {entry : MempoolEntry}
    (lowest : pool.lowestFeeRateEntry = some (victim, entry)) :
    pool.entries[victim]? = some entry ∧
      ∀ (txid : Hash) (other : MempoolEntry), pool.entries[txid]? = some other →
        evictionRank victim entry ≤ evictionRank txid other := by
  refine ⟨ExtTreeMap.mem_toList_iff_getElem?_eq_some.mp (List.argmin_mem lowest), ?_⟩
  intro txid other held
  have member := ExtTreeMap.mem_toList_iff_getElem?_eq_some.mpr held
  exact List.le_of_mem_argmin (f := fun held => evictionRank held.1 held.2) member lowest

def upTo (pool : Mempool) (bound : EvictionRank) : Set Hash :=
  {txid | ∃ entry, pool.entries[txid]? = some entry ∧ evictionRank txid entry ≤ bound}

def shed (pool : Mempool) (bound : EvictionRank) : Set Hash :=
  lineage pool.Spends (pool.upTo bound)

/-- There is room for a transaction of a size, or nothing left to evict. -/
def Settled (pool : Mempool) (sizeBytes : Nat) : Prop :=
  pool.isFull sizeBytes = false ∨ pool.entries = ∅

structure Marginal (pool : Mempool) (sizeBytes : Nat) (victim : Hash) (entry : MempoolEntry) :
    Prop where
  held : pool.entries[victim]? = some entry
  room : (pool.without (pool.shed (evictionRank victim entry))).Settled sizeBytes
  least : ∀ bound < evictionRank victim entry,
    ¬ (pool.without (pool.shed bound)).Settled sizeBytes

theorem Marginal.unique {sizeBytes : Nat} {first second : Hash}
    {firstEntry secondEntry : MempoolEntry}
    (firstMarginal : pool.Marginal sizeBytes first firstEntry)
    (secondMarginal : pool.Marginal sizeBytes second secondEntry) : first = second := by
  apply @evictionRank_injective _ _ firstEntry secondEntry
  apply le_antisymm
  · exact not_lt.mp fun less => firstMarginal.least _ less secondMarginal.room
  · exact not_lt.mp fun less => secondMarginal.least _ less firstMarginal.room

section Round

variable {victim : Hash} {entry : MempoolEntry} {bound : EvictionRank}

theorem shed_below (lowest : pool.lowestFeeRateEntry = some (victim, entry))
    (below : bound < evictionRank victim entry) : pool.shed bound = ∅ := by
  have nothing : pool.upTo bound = ∅ := by
    ext txid
    simp only [upTo, Set.mem_ofPred_eq, Set.mem_empty_iff_false, iff_false, not_exists, not_and]
    intro other held within
    exact absurd (below.trans_le ((lowestFeeRateEntry_eq_some lowest).2 txid other held))
      (not_lt.mpr within)
  simp [shed, nothing, lineage, heirs]

theorem upTo_lowest (lowest : pool.lowestFeeRateEntry = some (victim, entry)) :
    pool.upTo (evictionRank victim entry) = {victim} := by
  obtain ⟨held, least⟩ := lowestFeeRateEntry_eq_some lowest
  ext txid
  simp only [upTo, Set.mem_ofPred_eq, Set.mem_singleton_iff]
  constructor
  · rintro ⟨other, otherHeld, within⟩
    exact evictionRank_injective (le_antisymm within (least txid other otherHeld))
  · rintro rfl
    exact ⟨entry, held, le_rfl⟩

theorem shed_after_lowest (lowest : pool.lowestFeeRateEntry = some (victim, entry))
    (reaches : evictionRank victim entry ≤ bound) :
    lineage pool.Spends {victim} ∪
        (pool.without (lineage pool.Spends {victim})).shed bound = pool.shed bound := by
  obtain ⟨held, -⟩ := lowestFeeRateEntry_eq_some lowest
  rw [shed, spends_without, lineage_union_outside, shed]
  apply Set.Subset.antisymm
  · refine lineage_mono (fun _ _ step => step) ?_
    rintro txid (isVictim | ⟨other, otherHeld, within⟩)
    · rw [Set.mem_singleton_iff] at isVictim
      exact ⟨entry, isVictim ▸ held, isVictim ▸ reaches⟩
    · exact ⟨other, (entries_without_eq_some.mp otherHeld).2, within⟩
  · refine lineage_subset ?_ fun _ member _ => lineage_closed member
    rintro txid ⟨other, otherHeld, within⟩
    by_cases gone : txid ∈ lineage pool.Spends {victim}
    · exact lineage_mono (fun _ _ step => step) Set.subset_union_left gone
    · exact subset_lineage (.inr ⟨other, entries_without_eq_some.mpr ⟨gone, otherHeld⟩, within⟩)

end Round

section Rounds

variable {sizeBytes feeRate fuel : Nat}

/-- One round of making room: stop, refuse the transaction, or evict and go on. -/
theorem makeRoom_cases :
    (pool.Settled sizeBytes ∧ makeRoom sizeBytes feeRate (fuel + 1) pool = .ok [] pool) ∨
      ∃ victim lowest, ¬ pool.Settled sizeBytes ∧
        pool.lowestFeeRateEntry = some (victim, lowest) ∧
        ((feeRate ≤ lowest.feeRate ∧
            ∃ error, makeRoom sizeBytes feeRate (fuel + 1) pool = .error error pool) ∨
          (lowest.feeRate < feeRate ∧
            makeRoom sizeBytes feeRate (fuel + 1) pool =
              match makeRoom sizeBytes feeRate fuel
                  (pool.evictVictim victim lowest.feeRate) with
              | .ok victims after => .ok (victim :: victims) after
              | .error error after => .error error after)) := by
  rw [makeRoom, Retained.run_get_bind]
  cases next : pool.nextVictim sizeBytes with
  | none =>
      refine .inl ⟨?_, rfl⟩
      unfold nextVictim at next
      split at next
      · exact .inr (lowestFeeRateEntry_eq_none next)
      · next room => exact .inl (by simpa using room)
  | some found =>
      obtain ⟨victim, lowest⟩ := found
      obtain ⟨full, chosen⟩ : pool.isFull sizeBytes = true ∧
          pool.lowestFeeRateEntry = some (victim, lowest) := by
        unfold nextVictim at next
        split at next
        · exact ⟨‹_›, next⟩
        · cases next
      have held := (lowestFeeRateEntry_eq_some chosen).1
      refine .inr ⟨victim, lowest, ?_, chosen, ?_⟩
      · rintro (room | empty)
        · simp [full] at room
        · simp [empty] at held
      · by_cases refused : feeRate ≤ lowest.feeRate
        · refine .inl ⟨refused, NodeError.chain ("Mempool full; minimum fee rate is now " ++
            toString pool.minFeeRate ++ " sat/byte"), ?_⟩
          simp only [rejectIf, refused, decide_true, if_true]
          rfl
        · refine .inr ⟨Nat.lt_of_not_le refused, ?_⟩
          simp only [rejectIf, refused, decide_false, Bool.false_eq_true, if_false]
          change (makeRoom sizeBytes feeRate fuel >>= fun victims => pure (victim :: victims))
            (pool.evictVictim victim lowest.feeRate) = _
          rw [Retained.run_bind]
          cases makeRoom sizeBytes feeRate fuel (pool.evictVictim victim lowest.feeRate) <;> rfl

theorem Indexed.withFloor (indexed : pool.Indexed crypto) (floor : Nat) :
    (pool.withFloor floor).Indexed crypto :=
  ⟨indexed.keyed, indexed.admissible, indexed.spent, indexed.claims⟩

theorem Indexed.without_lineage_empty (indexed : pool.Indexed crypto) :
    pool.without (lineage pool.Spends ∅) = pool :=
  indexed.without_of_disjoint (by simp [lineage, heirs])

theorem without_after_eviction (victims roots : Set Hash) (floor : Nat) :
    ((pool.without (lineage pool.Spends victims)).withFloor floor).without
        (lineage ((pool.without (lineage pool.Spends victims)).withFloor floor).Spends roots) =
      (pool.without (lineage pool.Spends (victims ∪ roots))).withFloor floor := by
  have spends : ((pool.without (lineage pool.Spends victims)).withFloor floor).Spends =
      outside pool.Spends (lineage pool.Spends victims) :=
    spends_without _
  rw [spends, ← lineage_union_outside, ← without_without]
  rfl

/-- Whichever way the rounds end, they have removed lineages and moved the floor. -/
theorem Indexed.makeRoom_final (indexed : pool.Indexed crypto) :
    ∃ roots floor, Retained.final (makeRoom sizeBytes feeRate fuel) pool =
      (pool.without (lineage pool.Spends roots)).withFloor floor := by
  have unchanged : ∃ roots floor, pool =
      (pool.without (lineage pool.Spends roots)).withFloor floor :=
    ⟨∅, pool.minFeeRate, by rw [indexed.without_lineage_empty]; rfl⟩
  induction fuel generalizing pool with
  | zero => exact unchanged
  | succ fuel ih =>
      rcases @makeRoom_cases pool sizeBytes feeRate fuel with
        ⟨-, ran⟩ | ⟨victim, lowest, -, -, ⟨-, error, ran⟩ | ⟨-, ran⟩⟩
      · rw [Retained.final_of_ok ran]
        exact unchanged
      · rw [Retained.final_of_error ran]
        exact unchanged
      · rw [indexed.evictVictim] at ran
        have left := (indexed.without (lineage pool.Spends {victim})).withFloor
          (lowest.feeRate + 1)
        obtain ⟨roots, floor, final⟩ := ih left
          ⟨∅, lowest.feeRate + 1, by rw [left.without_lineage_empty]; rfl⟩
        rw [without_after_eviction] at final
        refine ⟨{victim} ∪ roots, floor, ?_⟩
        unfold Retained.final at final ⊢
        rw [ran]
        revert final
        cases makeRoom sizeBytes feeRate fuel
          ((pool.without (lineage pool.Spends {victim})).withFloor (lowest.feeRate + 1)) <;>
        exact fun final => final

/-- The rounds fail at once if no entry pays a lower rate, and otherwise after an
eviction. -/
theorem Indexed.makeRoom_eq_error (indexed : pool.Indexed crypto) {error : NodeError}
    {after : Mempool} (ran : makeRoom sizeBytes feeRate fuel pool = .error error after) :
    (after = pool ∧ ∀ (txid : Hash) (entry : MempoolEntry),
        pool.entries[txid]? = some entry → feeRate ≤ entry.feeRate) ∨
      (after.entries.size < pool.entries.size ∧ ∃ (txid : Hash) (entry : MempoolEntry),
        pool.entries[txid]? = some entry ∧ entry.feeRate < feeRate) := by
  cases fuel with
  | zero => cases ran
  | succ fuel =>
      rcases @makeRoom_cases pool sizeBytes feeRate fuel with
        ⟨-, stopped⟩ | ⟨victim, lowest, -, chosen, ⟨refused, reason, failed⟩ | ⟨cheaper, next⟩⟩
      · rw [stopped] at ran
        cases ran
      · rw [failed] at ran
        cases ran
        refine .inl ⟨rfl, fun txid entry held => refused.trans ?_⟩
        exact feeRate_le_of_evictionRank_le
          ((lowestFeeRateEntry_eq_some chosen).2 txid entry held)
      · have held := (lowestFeeRateEntry_eq_some chosen).1
        refine .inr ⟨?_, victim, lowest, held, cheaper⟩
        rw [next, indexed.evictVictim] at ran
        have left := (indexed.without (lineage pool.Spends {victim})).withFloor
          (lowest.feeRate + 1)
        obtain ⟨roots, floor, final⟩ := @makeRoom_final crypto _ sizeBytes feeRate fuel left
        have ended : after =
            Retained.final (makeRoom sizeBytes feeRate fuel)
              ((pool.without (lineage pool.Spends {victim})).withFloor (lowest.feeRate + 1)) := by
          split at ran
          · cases ran
          · next reason state rest =>
              cases ran
              exact (Retained.final_of_error rest).symm
        rw [ended, final, without_after_eviction]
        exact size_without_lt held (subset_lineage (.inl rfl))

/-- What the rounds have done when they succeed: nothing was needed, or everything up to
the marginal entry is gone. -/
structure RoomMade (pool : Mempool) (sizeBytes feeRate : Nat) (victims : List Hash)
    (after : Mempool) (last : Hash) (entry : MempoolEntry) : Prop where
  ends : victims.getLast? = some last
  marginal : pool.Marginal sizeBytes last entry
  cheaper : entry.feeRate < feeRate
  left : after =
    (pool.without (pool.shed (evictionRank last entry))).withFloor (entry.feeRate + 1)
  listed : ∀ victim ∈ victims, ∃ lower, pool.entries[victim]? = some lower ∧
    evictionRank victim lower ≤ evictionRank last entry

theorem shedding_after_lowest {victim : Hash} {lowest : MempoolEntry} {bound : EvictionRank}
    (chosen : pool.lowestFeeRateEntry = some (victim, lowest))
    (reaches : evictionRank victim lowest ≤ bound) (floor : Nat) :
    ((pool.without (lineage pool.Spends {victim})).withFloor floor).without
        (((pool.without (lineage pool.Spends {victim})).withFloor floor).shed bound) =
      (pool.without (pool.shed bound)).withFloor floor := by
  rw [← shed_after_lowest chosen reaches, ← without_without]
  rfl

theorem Indexed.makeRoom_eq_ok (indexed : pool.Indexed crypto)
    (enough : pool.entries.size < fuel) {victims : List Hash} {after : Mempool}
    (ran : makeRoom sizeBytes feeRate fuel pool = .ok victims after) :
    (pool.Settled sizeBytes ∧ victims = [] ∧ after = pool) ∨
      (¬ pool.Settled sizeBytes ∧
        ∃ last entry, RoomMade pool sizeBytes feeRate victims after last entry) := by
  induction fuel generalizing pool victims after with
  | zero => omega
  | succ fuel ih =>
      rcases @makeRoom_cases pool sizeBytes feeRate fuel with
        ⟨settled, stopped⟩ | ⟨victim, lowest, full, chosen, ⟨-, error, failed⟩ | ⟨cheaper, next⟩⟩
      · rw [stopped] at ran
        cases ran
        exact .inl ⟨settled, rfl, rfl⟩
      · rw [failed] at ran
        cases ran
      · refine .inr ⟨full, ?_⟩
        obtain ⟨held, least⟩ := lowestFeeRateEntry_eq_some chosen
        rw [next, indexed.evictVictim] at ran
        set left := (pool.without (lineage pool.Spends {victim})).withFloor (lowest.feeRate + 1)
          with leftEq
        have leftIndexed : left.Indexed crypto := (indexed.without _).withFloor _
        have fewer : left.entries.size < pool.entries.size :=
          size_without_lt held (subset_lineage rfl)
        have below : ∀ bound < evictionRank victim lowest,
            ¬ (pool.without (pool.shed bound)).Settled sizeBytes := by
          intro bound less
          rw [shed_below chosen less, indexed.without_of_disjoint (by simp)]
          exact full
        cases rest : makeRoom sizeBytes feeRate fuel left with
        | error error state => simp [rest] at ran
        | ok more state =>
            simp only [rest, EStateM.Result.ok.injEq] at ran
            obtain ⟨rfl, rfl⟩ := ran
            rcases ih leftIndexed (by omega) rest with
              ⟨settled, rfl, rfl⟩ | ⟨-, last, entry, made⟩
            · have gone : pool.without (pool.shed (evictionRank victim lowest)) =
                  pool.without (lineage pool.Spends {victim}) := by
                rw [shed, upTo_lowest chosen]
              exact ⟨victim, lowest, rfl, ⟨held, gone ▸ settled, below⟩, cheaper,
                by rw [gone], by simp [held]⟩
            · have lastHeld := (entries_without_eq_some.mp made.marginal.held).2
              have reaches := least last entry lastHeld
              refine ⟨last, entry, ?_, ⟨lastHeld, ?_, ?_⟩, made.cheaper, ?_, ?_⟩
              · rw [List.getLast?_cons, made.ends]
                rfl
              · have room := made.marginal.room
                rw [leftEq, shedding_after_lowest chosen reaches] at room
                exact room
              · intro bound less
                by_cases reached : evictionRank victim lowest ≤ bound
                · have short := made.marginal.least bound less
                  rw [leftEq, shedding_after_lowest chosen reached] at short
                  exact short
                · exact below bound (not_le.mp reached)
              · rw [made.left, leftEq, shedding_after_lowest chosen reaches]
                rfl
              · intro listed member
                rcases List.mem_cons.mp member with rfl | later
                · exact ⟨lowest, held, reaches⟩
                · obtain ⟨lower, lowerHeld, within⟩ := made.listed listed later
                  exact ⟨lower, (entries_without_eq_some.mp lowerHeld).2, within⟩

end Rounds

end Threshold

end Mempool

end Vtorrent
