import Vtorrent.Deliveries

/-!
# Fork choice over whole runs

In every reachable state the main chain is a heaviest path of the block tree, the
journals cover its last blocks, and its height never decreases.  How deep the next
reorganisation can go depends on the number of journals, which a reorganisation
increases by one and only a plain extension trims.
-/

namespace Vtorrent

open Std RootedPaths MainChain Retained

/-- The main chain ends in a heaviest known block, and the maps about the known
blocks agree with each other and with the main chain. -/
structure ForkChoice (network : Network) (chain : Chain) (tip : Hash) : Prop where
  best : chain.bestHash = some tip
  height : chain.blockHeights[tip]? = some chain.bestHeight
  work : chain.cumulativeWork[tip]? = some (chain.bestHeight + 1)
  heaviest : ∀ (hash : Hash) (work : Nat), chain.cumulativeWork[hash]? = some work →
    work ≤ chain.bestHeight + 1
  main : Path network.genesisHash (chain.parentMap[·]?) tip chain.heightIndex
  known : ∀ hash : Hash, (hash ∈ chain.blocks ↔ hash ∈ chain.blockHeights) ∧
    (hash ∈ chain.headers ↔ hash ∈ chain.blockHeights) ∧
    (hash ∈ chain.cumulativeWork ↔ hash ∈ chain.blockHeights)
  linked : ∀ hash ∈ chain.blockHeights, hash ≠ network.genesisHash →
    ∃ parent height, chain.parentMap[hash]? = some parent ∧
      chain.headers[hash]?.map BlockHeader.prevBlockHash = some parent ∧
      chain.blockHeights[parent]? = some height ∧
      chain.blockHeights[hash]? = some (height + 1)
  journals : chain.journals.map BlockJournal.identity <:+ chain.heightIndex.zipIdx

section Reachable

variable {network : Network} {options : ChainOptions} {accepted : Block → Prop}
  {chain : Chain} {main : List Block} {journals : List BlockJournal}

theorem BlockTree.linked {allowPow : Bool} {index : BlockIndex} {hash : Hash}
    (tree : BlockTree network allowPow index) (known : hash ∈ index.blockHeights)
    (notGenesis : hash ≠ network.genesisHash) :
    ∃ parent height, index.parentMap[hash]? = some parent ∧
      index.headers[hash]?.map BlockHeader.prevBlockHash = some parent ∧
      index.blockHeights[parent]? = some height ∧
      index.blockHeights[hash]? = some (height + 1) := by
  have held := (tree.same_keys hash).1.mpr known
  rw [ExtTreeMap.mem_iff_isSome_getElem?] at held
  obtain ⟨block, body⟩ := Option.isSome_iff_exists.mp held
  obtain ⟨parent, height, child⟩ := tree.child hash block body notGenesis
  refine ⟨_, height, child.linked, ?_, child.parentHeight, child.recorded⟩
  rw [tree.headers, body]
  rfl

theorem Consistent.forkChoice
    (consistent : Consistent (journalView network options) accepted chain main journals) :
    ∃ tip, ForkChoice network chain tip := by
  obtain ⟨last, isLast, best, -, height⟩ := consistent.toCoherent.tip
  obtain ⟨tip, path⟩ := consistent.path
  have ends := path.getLast?
  rw [List.getLast?_map, isLast] at ends
  obtain rfl : last.hash network.crypto = tip := Option.some.inj ends
  rw [← consistent.toTracks.bestHeight] at height
  have works : ∀ hash : Hash,
      chain.cumulativeWork[hash]? = chain.blockHeights[hash]?.map (· + 1) :=
    consistent.tree.work
  exact ⟨last.hash network.crypto, {
    best := best
    height := height
    work := by rw [works, height]; rfl
    heaviest := by
      intro hash work held
      rw [works, Option.map_eq_some_iff] at held
      obtain ⟨other, otherHeight, rfl⟩ := held
      rw [consistent.toCoherent.bestHeight_succ]
      exact consistent.best hash other otherHeight
    main := consistent.heightIndex ▸ path
    known := consistent.tree.same_keys
    linked := fun hash known => consistent.tree.linked known
    journals := by
      have named : journals.map BlockJournal.identity =
          (main.map (Block.hash network.crypto)).zipIdx := consistent.held
      rw [consistent.heightIndex, ← named]
      exact consistent.journals.map _ }⟩

end Reachable

/-- Every reachable chain has chosen a heaviest branch, and no delivery lowers its
height. -/
theorem reachable_forkChoice {network : Network} {options : ChainOptions} {fresh : Chain}
    (created : Chain.newWith network options = .ok fresh) (deliveries : List Delivery) :
    (∃ tip, ForkChoice network (fresh.deliverAll network deliveries) tip) ∧
      ∀ delivery, (fresh.deliverAll network deliveries).bestHeight ≤
        ((fresh.deliverAll network deliveries).deliver network delivery).bestHeight := by
  obtain ⟨main, journals, reached⟩ := reachable_journals created deliveries
  refine ⟨reached.forkChoice, fun delivery => ?_⟩
  have admissions : Admissions (journalView network options) (fun _ => True) delivery :=
    ⟨trivial, fun _ => trivial⟩
  obtain ⟨main', journals', grown, next⟩ :=
    reached.deliver (fun _ _ => trivial) admissions
  rw [reached.toTracks.bestHeight, next.toTracks.bestHeight]
  omega

/-- After a reorganisation to a branch of two blocks. -/
theorem rivals_forkChoice :
    ∃ tip, ForkChoice Regtest.network (Regtest.fresh.deliverAll Regtest.network
      (Regtest.deliveries Regtest.rivals)) tip :=
  (reachable_forkChoice Regtest.newWith_eq (Regtest.deliveries Regtest.rivals)).1

end Vtorrent
