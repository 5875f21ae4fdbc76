import Vtorrent.BlockTree
import Vtorrent.LedgerViews

/-!
# A chain that tracks its main chain

The chain keeps the ledger, the hashes, the transaction index and the journals of
its main blocks.  As long as they are those of a replay, applying a block reads
the same context as the replay does, and the searches along the parent map return
the paths of the block tree.
-/

namespace Vtorrent

open Std RootedPaths MainChain

/-- A view holds of the chain and the given main blocks, whose hashes the chain
lists and whose bodies it keeps.  It may have dropped the oldest journals. -/
structure Tracks {network : Network} {options : ChainOptions}
    (view : LedgerView network options) (chain : Chain) (main : List Block)
    (journals : List BlockJournal) : Prop where
  held : view.holds main chain.toLedger chain.txIndex journals
  settings : chain.toChainOptions = options
  heightIndex : chain.heightIndex = main.map (Block.hash network.crypto)
  journals : chain.journals <:+ journals
  stored : Stored network.crypto chain.index main
  path : ∃ tip, Path network.genesisHash chain.index.parent tip
    (main.map (Block.hash network.crypto))

namespace Tracks

variable {network : Network} {options : ChainOptions}
  {view : LedgerView network options} {chain : Chain}
  {main : List Block} {journals : List BlockJournal} {block : Block}

theorem ne_nil (tracks : Tracks view chain main journals) : main ≠ [] := by
  obtain ⟨tip, path⟩ := tracks.path
  simpa using path.ne_nil

theorem bestHeight (tracks : Tracks view chain main journals) :
    chain.bestHeight = main.length - 1 := by
  rw [Chain.bestHeight, tracks.heightIndex, List.length_map]

theorem bestHash (tracks : Tracks view chain main journals) :
    chain.bestHash = main.getLast?.map (Block.hash network.crypto) := by
  rw [Chain.bestHash, tracks.heightIndex, List.getLast?_map]

theorem head (tracks : Tracks view chain main journals) :
    chain.heightIndex.headD zeroHash = network.genesisHash := by
  obtain ⟨tip, path⟩ := tracks.path
  rw [List.headD_eq_head?_getD, tracks.heightIndex, path.head?]
  rfl

theorem getBlockAtHeight (tracks : Tracks view chain main journals)
    (height : Nat) : chain.getBlockAtHeight height = main[height]? := by
  rw [Chain.getBlockAtHeight, tracks.heightIndex, List.getElem?_map]
  cases found : main[height]? with
  | none => rfl
  | some block => exact tracks.stored block (List.mem_of_getElem? found)

theorem extend {journal : BlockJournal} {after : Ledger} {grown : Chain}
    (tracks : Tracks view chain main journals) (admitted : view.admits block)
    (extended : Extends network options main chain.toLedger block journal after)
    (ledger : grown.toLedger = after)
    (sameOptions : grown.toChainOptions = chain.toChainOptions)
    (heightIndex : grown.heightIndex =
      chain.heightIndex ++ [block.hash network.crypto])
    (kept : grown.journals <:+ chain.journals ++ [journal])
    (txIndex : grown.txIndex = indexBlock network.crypto chain.txIndex block)
    (stored : Stored network.crypto grown.index (main ++ [block]))
    (path : ∃ tip, Path network.genesisHash grown.index.parent tip
      ((main ++ [block]).map (Block.hash network.crypto))) :
    Tracks view grown (main ++ [block]) (journals ++ [journal]) where
  held := by
    rw [ledger, txIndex]
    exact view.extend tracks.held admitted extended
  settings := sameOptions.trans tracks.settings
  heightIndex := by simp [heightIndex, tracks.heightIndex]
  journals := by
    obtain ⟨dropped, whole⟩ := tracks.journals
    exact kept.trans ⟨dropped, by rw [← List.append_assoc, whole]⟩
  stored := stored
  path := path

section Context

variable (tracks : Tracks view chain main journals)
  (tree : BlockTree network options.allowPowTestBlocks chain.index)

include tracks tree

theorem getHeaderAtHeight (height : Nat) :
    chain.getHeaderAtHeight height = main[height]?.map Block.header := by
  rw [Chain.getHeaderAtHeight, tracks.heightIndex, List.getElem?_map]
  cases found : main[height]? with
  | none => rfl
  | some block =>
      have body := tracks.stored block (List.mem_of_getElem? found)
      exact (tree.headers _).trans (by rw [body])

theorem signalsAt (bit height : Nat) :
    chain.signalsAt bit height =
      (match (main.map Block.header)[height]? with
        | some header => decide (header.version.toNat / 2 ^ bit % 2 = 1)
        | none => false) := by
  rewrite [Chain.signalsAt, tracks.getHeaderAtHeight tree, List.getElem?_map]
  rfl

theorem countSignals (bit period : Nat) :
    chain.countSignals bit period =
      MainChain.countSignals (main.map Block.header) bit period := by
  have signals := funext (tracks.signalsAt tree bit)
  rewrite [Chain.countSignals, MainChain.countSignals, tracks.bestHeight, signals,
    List.length_map]
  rfl

theorem governanceActive (height : Nat) :
    chain.governanceActive height =
      MainChain.governanceActive options (main.map Block.header) height := by
  unfold Chain.governanceActive MainChain.governanceActive
    Chain.governanceDeploymentConfig
  rw [tracks.settings]
  cases options.governanceTestActivation with
  | some activation => rfl
  | none =>
      cases options.governanceTestDeployment with
      | none => rfl
      | some scheduled => simp only [tracks.countSignals tree]

theorem contextFor {modifier : UInt64}
    (parent : (main.getLast?.map (·.header.stakeModifier)).getD 0 = modifier) :
    chain.contextFor network block main.length modifier =
      MainChain.context network options main block := by
  unfold Chain.contextFor MainChain.context
  have bootstrapped : chain.isBootstrapped =
      ((main[1]?.bind (·.transactions.head?)).map Transaction.isLegacyClaim).getD
        false := by
    rw [Chain.isBootstrapped, tracks.getBlockAtHeight]
    cases main[1]? <;> rfl
  rw [tracks.governanceActive tree, tracks.head, bootstrapped, parent]
  rfl

theorem parentModifier
    (linked : main.getLast?.map (Block.hash network.crypto) =
      some block.header.prevBlockHash) :
    chain.parentModifier block main.length =
      .ok ((main.getLast?.map (·.header.stakeModifier)).getD 0) := by
  cases last : main.getLast? with
  | none => simp [last] at linked
  | some parent =>
      rw [last, Option.map_some, Option.some.injEq] at linked
      have nonempty : main.length ≠ 0 := by
        rw [Ne, List.length_eq_zero_iff]
        exact tracks.ne_nil
      have header : chain.headers[block.header.prevBlockHash]? = some parent.header := by
        have body := tracks.stored parent (List.mem_of_getLast? last)
        rw [linked] at body
        exact (tree.headers _).trans (by rw [body]; rfl)
      rw [Chain.parentModifier, if_neg nonempty, header]
      rfl

theorem applyBlockJournaled
    (linked : main.getLast?.map (Block.hash network.crypto) =
      some block.header.prevBlockHash) :
    chain.applyBlockJournaled network block main.length =
      match Vtorrent.applyBlockJournaled network
          (MainChain.context network options main block) block.transactions
          chain.toLedger with
      | .ok journal ledger => .ok journal { chain with toLedger := ledger }
      | .error error ledger => .error error { chain with toLedger := ledger } := by
  rewrite [Chain.applyBlockJournaled, tracks.parentModifier tree linked,
    ← tracks.contextFor tree rfl]
  rfl

end Context

end Tracks

section Searches

variable {network : Network} {allowPow : Bool} {chain : Chain}
  (tree : BlockTree network allowPow chain.index)

include tree

theorem ancestorsWithin_eq {tip : Hash} {path : List Hash} {fuel : Nat}
    (whole : Path network.genesisHash chain.index.parent tip path)
    (enough : path.length ≤ fuel + 1) :
    chain.ancestorsWithin network.genesisHash fuel tip = path.reverse := by
  induction whole generalizing fuel with
  | root =>
      cases fuel with
      | zero => rfl
      | succ fuel => simp [Chain.ancestorsWithin]
  | @child node above path linked earlier ih =>
      have positive := List.length_pos_iff.mpr earlier.ne_nil
      rw [List.length_append, List.length_singleton] at enough
      obtain ⟨fuel, rfl⟩ : ∃ less, fuel = less + 1 := ⟨fuel - 1, by omega⟩
      have notGenesis : node ≠ network.genesisHash := by
        rintro rfl
        rw [BlockIndex.parent, tree.genesisParent] at linked
        cases linked
      have parent : chain.parentMap[node]? = some above := linked
      have above : chain.ancestorsWithin network.genesisHash fuel above = path.reverse :=
        ih (by omega)
      simp [Chain.ancestorsWithin, notGenesis, parent, above]

theorem ancestors_eq {tip : Hash} {path : List Hash}
    (head : chain.heightIndex.headD zeroHash = network.genesisHash)
    (whole : Path network.genesisHash chain.index.parent tip path) :
    chain.ancestors tip = path.reverse := by
  rw [Chain.ancestors, head]
  exact ancestorsWithin_eq tree whole (tree.length_path_le whole)

theorem forkPathWithin_eq {tip forkPoint : Hash} {common new : List Hash} {fuel : Nat}
    (ends : common.getLast? = some forkPoint)
    (whole : Path network.genesisHash chain.index.parent tip (common ++ new))
    (enough : new.length ≤ fuel) :
    chain.forkPathWithin forkPoint fuel tip = .ok new.reverse := by
  induction new using List.reverseRecOn generalizing tip fuel with
  | nil =>
      have last := whole.getLast?
      rw [List.append_nil, ends, Option.some.injEq] at last
      cases fuel <;> simp [Chain.forkPathWithin, last]
  | append_singleton new last ih =>
      rw [List.length_append, List.length_singleton] at enough
      obtain ⟨fuel, rfl⟩ : ∃ less, fuel = less + 1 := ⟨fuel - 1, by omega⟩
      have nodup := whole.nodup tree.genesisParent
      rw [← List.append_assoc] at whole nodup
      have nonempty : common ++ new ≠ [] := by
        rintro empty
        simp [(List.append_eq_nil_iff.mp empty).1] at ends
      obtain ⟨rfl, above, linked, earlier⟩ := whole.last_child nonempty
      have apart : last ≠ forkPoint := by
        rintro rfl
        have early : last ∈ common ++ new :=
          List.mem_append_left _ (List.mem_of_getLast? ends)
        exact (List.nodup_append.mp nodup).2.2 last early last (by simp) rfl
      have parent : chain.parentMap[last]? = some above := linked
      have rest : chain.forkPathWithin forkPoint fuel above = .ok new.reverse :=
        ih earlier (by omega)
      rw [Chain.forkPathWithin, if_neg apart, parent]
      simp only [rest, List.reverse_append]
      rfl

end Searches

end Vtorrent
