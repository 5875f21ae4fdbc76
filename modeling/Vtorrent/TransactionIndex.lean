import Vtorrent.MainChain

/-!
# The transaction index of a main chain

The index is filled block by block, and rolling a block back erases the ids of
its transactions.  On a chain whose transactions all have different ids this
restores the index of the shorter chain.
-/

namespace Vtorrent

open Std

section Entries

variable {crypto : Crypto} {blockHash txid : Hash} {txs : List Transaction}

theorem getElem?_indexTransactions {offset : Nat}
    {index : ExtTreeMap Hash (Hash × Nat)}
    (foreign : txid ∉ txs.map (Transaction.txid crypto)) :
    (Chain.indexTransactions crypto blockHash offset txs index)[txid]? =
      index[txid]? := by
  induction txs generalizing offset index with
  | nil => rfl
  | cons tx txs ih =>
      rw [List.map_cons, List.mem_cons, not_or] at foreign
      rw [Chain.indexTransactions, ih foreign.2, ExtTreeMap.getElem?_insert]
      simp [Ne.symm foreign.1]

theorem getElem?_unindexTransactions {index : ExtTreeMap Hash (Hash × Nat)} :
    (Chain.unindexTransactions crypto txs index)[txid]? =
      if txid ∈ txs.map (Transaction.txid crypto) then none else index[txid]? := by
  induction txs generalizing index with
  | nil => simp [Chain.unindexTransactions]
  | cons tx txs ih =>
      have unfolded : Chain.unindexTransactions crypto (tx :: txs) index =
          Chain.unindexTransactions crypto txs (index.erase (tx.txid crypto)) := rfl
      rw [unfolded, ih, ExtTreeMap.getElem?_erase]
      by_cases same : tx.txid crypto = txid
      · simp [same]
      · simp [same, Ne.symm same]

theorem unindex_indexTransactions {index : ExtTreeMap Hash (Hash × Nat)}
    (fresh : ∀ tx ∈ txs, tx.txid crypto ∉ index) :
    Chain.unindexTransactions crypto txs
      (Chain.indexTransactions crypto blockHash 0 txs index) = index := by
  apply ExtTreeMap.ext_getElem?
  intro txid
  rw [getElem?_unindexTransactions]
  split
  · rename_i own
    obtain ⟨tx, member, rfl⟩ := List.mem_map.mp own
    exact (ExtTreeMap.getElem?_eq_none (fresh tx member)).symm
  · rename_i foreign
    exact getElem?_indexTransactions foreign

end Entries

namespace MainChain

def indexBlock (crypto : Crypto) (index : ExtTreeMap Hash (Hash × Nat)) (block : Block) :
    ExtTreeMap Hash (Hash × Nat) :=
  Chain.indexTransactions crypto (block.hash crypto) 0 block.transactions index

def txIndex (crypto : Crypto) (main : List Block) : ExtTreeMap Hash (Hash × Nat) :=
  main.foldl (indexBlock crypto) ∅

theorem txIndex_append (crypto : Crypto) (main : List Block) (block : Block) :
    txIndex crypto (main ++ [block]) = indexBlock crypto (txIndex crypto main) block := by
  simp [txIndex]

theorem mem_txIndex {crypto : Crypto} {main : List Block} {txid : Hash}
    (held : txid ∈ txIndex crypto main) :
    ∃ tx ∈ transactions main, tx.txid crypto = txid := by
  induction main using List.reverseRecOn with
  | nil => simp [txIndex] at held
  | append_singleton main block ih =>
      simp only [transactions, List.flatMap_append, List.mem_append]
      by_cases own : txid ∈ block.transactions.map (Transaction.txid crypto)
      · obtain ⟨tx, member, same⟩ := List.mem_map.mp own
        exact ⟨tx, .inr (by simpa using member), same⟩
      · rw [txIndex_append, ExtTreeMap.mem_iff_isSome_getElem?, indexBlock,
          getElem?_indexTransactions own, ← ExtTreeMap.mem_iff_isSome_getElem?] at held
        obtain ⟨tx, member, same⟩ := ih held
        exact ⟨tx, .inl member, same⟩

theorem unindex_txIndex {network : Network} {options : ChainOptions}
    {main : List Block} {block : Block} {ledger : Ledger} {journals : List BlockJournal}
    {pool : List Transaction}
    (replays : Replays network options (main ++ [block]) ledger journals)
    (distinct : DistinctTxids network.crypto pool)
    (subset : ∀ tx ∈ transactions (main ++ [block]), tx ∈ pool) :
    Chain.unindexTransactions network.crypto block.transactions
      (txIndex network.crypto (main ++ [block])) = txIndex network.crypto main := by
  rw [txIndex_append]
  apply unindex_indexTransactions
  intro tx member held
  obtain ⟨earlier, earlierMember, same⟩ := mem_txIndex held
  have split : transactions (main ++ [block]) = transactions main ++ block.transactions := by
    simp [transactions]
  have nodup := (replays.history distinct subset).nodup
  rw [split] at subset nodup
  have equal : earlier = tx := distinct earlier
    (subset _ (List.mem_append_left _ earlierMember)) tx
    (subset _ (List.mem_append_right _ member)) same
  rw [List.nodup_reverse, List.nodup_append] at nodup
  exact nodup.2.2 earlier earlierMember tx member equal

end MainChain

end Vtorrent
