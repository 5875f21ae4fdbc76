import Vtorrent.AcceptedBlocks
import Vtorrent.Reorganisation

/-!
# What every call keeps

Between calls the chain tracks its main blocks, the known blocks form a tree, and
no known block lies above the main tip.  Every way of accepting a block keeps
this, including the eviction of fork leaves that follows.
-/

namespace Vtorrent

open Std RootedPaths MainChain Retained

/-- The chain tracks its main blocks inside a tree of known blocks, all of them
accepted at some time. -/
structure Coherent {network : Network} {options : ChainOptions}
    (view : LedgerView network options) (accepted : Block → Prop) (chain : Chain)
    (main : List Block) (journals : List BlockJournal) : Prop
    extends Tracks view chain main journals where
  tree : BlockTree network options.allowPowTestBlocks chain.index
  bodies : ∀ (hash : Hash) (block : Block), chain.blocks[hash]? = some block →
    hash ≠ network.genesisHash → accepted block
  unlimited : chain.blockBodyCache = unlimitedBodies
  reorgDepth : chain.maxReorgDepth = 100

/-- The state between calls: no known block is higher than the main tip. -/
structure Consistent {network : Network} {options : ChainOptions}
    (view : LedgerView network options) (accepted : Block → Prop) (chain : Chain)
    (main : List Block) (journals : List BlockJournal) : Prop
    extends Coherent view accepted chain main journals where
  best : ∀ (hash : Hash) (height : Nat), chain.blockHeights[hash]? = some height →
    height < main.length

section Pruning

variable {network : Network} {options : ChainOptions}
  {view : LedgerView network options} {accepted : Block → Prop} {chain : Chain}
  {main : List Block} {journals : List BlockJournal}

theorem forkVictim_spec {keyOrder : KeyOrder} {hash : Hash}
    (victim : chain.forkVictim keyOrder = some hash) :
    hash ∈ chain.blocks ∧ hash ∉ chain.heightIndex ∧
      ∀ other : Hash, chain.parentMap[other]? ≠ some hash := by
  have candidate := List.mem_filter.mp (List.argmin_mem (Option.mem_def.mpr victim))
  obtain ⟨known, outside⟩ := candidate
  rw [(keyOrder.perm _).mem_iff, ExtTreeMap.mem_keys] at known
  simp only [Bool.and_eq_true, Bool.not_eq_true', List.contains_eq_mem,
    decide_eq_false_iff_not] at outside
  refine ⟨known, outside.1, fun other linked => outside.2 ?_⟩
  exact FiniteMap.mem_values.mpr ⟨other, linked⟩

theorem Consistent.evict
    (consistent : Consistent view accepted chain main journals)
    {hash : Hash} (outside : hash ∉ chain.heightIndex)
    (leaf : ∀ other : Hash, chain.parentMap[other]? ≠ some hash) :
    Consistent view accepted (chain.evict hash) main journals := by
  have onMain : ∀ block ∈ main, block.hash network.crypto ≠ hash := by
    rintro block member rfl
    apply outside
    rw [consistent.heightIndex]
    exact List.mem_map_of_mem member
  have notGenesis : hash ≠ network.genesisHash := by
    rintro rfl
    obtain ⟨tip, path⟩ := consistent.path
    rw [← consistent.heightIndex] at path
    exact outside path.root_mem
  have agrees : ∀ block ∈ main,
      chain.index.AgreesAt (chain.evict hash).index (block.hash network.crypto) :=
    fun block member => BlockIndex.agreesAt_evict (onMain block member)
  have stored : Stored network.crypto (chain.evict hash).index main :=
    consistent.stored.congr agrees
  have path : ∃ tip, Path network.genesisHash (chain.evict hash).index.parent tip
      (main.map (Block.hash network.crypto)) := by
    obtain ⟨tip, path⟩ := consistent.path
    refine ⟨tip, path.congr ?_⟩
    intro key member
    obtain ⟨block, inMain, rfl⟩ := List.mem_map.mp member
    exact (agrees block inMain).parent
  have shrinks : ∀ {ν : Type} (map : ExtTreeMap Hash ν) (other : Hash) (value : ν),
      (map.erase hash)[other]? = some value → map[other]? = some value := by
    intro ν map other value held
    rw [ExtTreeMap.getElem?_erase] at held
    split at held
    · simp at held
    · exact held
  exact {
    held := consistent.held
    settings := consistent.settings
    heightIndex := consistent.heightIndex
    journals := consistent.journals
    stored := stored
    path := path
    tree := consistent.tree.evict notGenesis leaf
    bodies := fun other block held =>
      consistent.bodies other block (shrinks _ other block held)
    unlimited := consistent.unlimited
    reorgDepth := consistent.reorgDepth
    best := fun other height held =>
      consistent.best other height (shrinks _ other height held) }

theorem pruneForkBodies_invariant (holds : Chain → Prop) {keyOrder : KeyOrder}
    {bound fuel : Nat}
    (step : ∀ chain hash, bound < chain.blocks.size →
      chain.forkVictim keyOrder = some hash → holds chain → holds (chain.evict hash))
    (start : holds chain) : holds (chain.pruneForkBodies keyOrder bound fuel) := by
  induction fuel generalizing chain with
  | zero => exact start
  | succ fuel ih =>
      rw [Chain.pruneForkBodies]
      split
      · rename_i large
        split
        · rename_i hash victim
          exact ih (step chain hash large victim start)
        · exact start
      · exact start

theorem pruneBodies_eq (keyOrder : KeyOrder)
    (unlimited : chain.blockBodyCache = unlimitedBodies) :
    chain.pruneBodies keyOrder = chain.pruneForkBodies keyOrder
      (chain.heightIndex.length + maxForkBodies) chain.blocks.size := by
  have noVictim : chain.pruneVictim = none := by
    simp [Chain.pruneVictim, unlimited]
  simp [Chain.pruneBodies, noVictim, Chain.retainedMainBodies, unlimited]

theorem Consistent.pruneBodies
    (consistent : Consistent view accepted chain main journals)
    (keyOrder : KeyOrder) :
    Consistent view accepted (chain.pruneBodies keyOrder) main journals := by
  rw [pruneBodies_eq keyOrder consistent.unlimited]
  refine pruneForkBodies_invariant
    (fun pruned => Consistent view accepted pruned main journals) ?_ consistent
  intro chain hash _ victim consistent
  obtain ⟨-, outside, leaf⟩ := forkVictim_spec victim
  exact consistent.evict outside leaf

theorem journals_pruneBodies (keyOrder : KeyOrder)
    (unlimited : chain.blockBodyCache = unlimitedBodies) :
    (chain.pruneBodies keyOrder).journals = chain.journals := by
  rw [pruneBodies_eq keyOrder unlimited]
  exact pruneForkBodies_invariant (fun pruned => pruned.journals = chain.journals)
    (fun _ _ _ _ same => same) rfl

end Pruning

section Recording

variable {network : Network} {options : ChainOptions}
  {view : LedgerView network options} {accepted : Block → Prop} {chain : Chain}
  {main : List Block} {journals : List BlockJournal} {block : Block}
  {height : Nat}

theorem Coherent.workOf (coherent : Coherent view accepted chain main journals)
    {hash : Hash} (known : chain.blockHeights[hash]? = some height) :
    chain.workOf hash = height + 1 := by
  have work : chain.cumulativeWork[hash]? = chain.blockHeights[hash]?.map (· + 1) :=
    coherent.tree.work hash
  rw [Chain.workOf, work, known]
  rfl

theorem Coherent.tipHeight
    (coherent : Coherent view accepted chain main journals) {hash : Hash}
    (tip : chain.bestHash = some hash) :
    chain.blockHeights[hash]? = some (main.length - 1) := by
  obtain ⟨last, path⟩ := coherent.path
  have ends := path.getLast?
  rw [← coherent.heightIndex] at ends
  obtain rfl : last = hash := Option.some.inj (ends.symm.trans tip)
  have height := coherent.tree.height_of_path path
  rw [List.length_map] at height
  exact height

theorem Coherent.accepted_of_mem {blocks : List Block}
    (coherent : Coherent view accepted chain (network.genesisBlock :: blocks) journals)
    {block : Block} (member : block ∈ blocks) : accepted block := by
  obtain ⟨tip, path⟩ := coherent.path
  have nodup := path.nodup coherent.tree.genesisParent
  rw [List.map_cons, List.nodup_cons] at nodup
  refine coherent.bodies _ block
    (coherent.stored block (List.mem_cons_of_mem _ member)) fun genesis => ?_
  exact nodup.1 (List.mem_map.mpr ⟨block, member, genesis⟩)

variable (coherent : Coherent view accepted chain main journals)
  (fresh : block.hash network.crypto ∉ chain.blockHeights)

include coherent fresh

theorem Coherent.agrees_withChild {hash : Hash}
    (held : chain.index.blocks[hash]?.isSome = true) :
    chain.index.AgreesAt (chain.index.withChild network.crypto block height) hash := by
  apply BlockIndex.agreesAt_withChild
  rintro rfl
  rw [(coherent.tree.absent fresh).1] at held
  cases held

theorem Coherent.stored_withChild :
    Stored network.crypto (chain.index.withChild network.crypto block height) main := by
  apply coherent.stored.congr
  intro earlier member
  apply coherent.agrees_withChild fresh
  rw [coherent.stored earlier member]
  rfl

theorem Coherent.path_withChild {hash : Hash} {path : List Hash}
    (whole : Path network.genesisHash chain.index.parent hash path) :
    Path network.genesisHash
      (chain.index.withChild network.crypto block height).parent hash path := by
  apply whole.congr
  intro key member
  obtain ⟨branch, stored, rfl⟩ := coherent.tree.bodies whole
  obtain ⟨earlier, inBranch, rfl⟩ := List.mem_map.mp member
  have held : chain.index.blocks[earlier.hash network.crypto]?.isSome = true := by
    rw [stored earlier inBranch]
    rfl
  exact (coherent.agrees_withChild fresh held).parent

theorem Coherent.newPath_withChild {path : List Hash}
    (whole : Path network.genesisHash chain.index.parent block.header.prevBlockHash path) :
    Path network.genesisHash
      (chain.index.withChild network.crypto block height).parent
      (block.hash network.crypto) (path ++ [block.hash network.crypto]) :=
  .child BlockIndex.parent_withChild (coherent.path_withChild fresh whole)

theorem Coherent.tree_withChild {parent : BlockHeader}
    (header : chain.headers[block.header.prevBlockHash]? = some parent)
    (known : chain.blockHeights[block.header.prevBlockHash]? = some height)
    (valid : BlockValid network.crypto block
      (Chain.parentView parent height block.header.prevBlockHash)
      options.allowPowTestBlocks) :
    BlockTree network options.allowPowTestBlocks
      (chain.index.withChild network.crypto block height) := by
  obtain ⟨parentBlock, body, rfl⟩ : ∃ parentBlock,
      chain.index.blocks[block.header.prevBlockHash]? = some parentBlock ∧
        parentBlock.header = parent := by
    have headers := header.symm.trans (coherent.tree.headers _)
    simpa [eq_comm] using headers
  exact coherent.tree.withChild fresh body known valid

end Recording

end Vtorrent
