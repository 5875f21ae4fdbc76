import Vtorrent.MainChain
import Vtorrent.RootedPaths

/-!
# The tree of known blocks

Five maps describe the known blocks: bodies, headers, work, parents and heights.
They stay consistent when a valid child of a known block is recorded and when a
leaf is evicted, and they give every known block a path from genesis whose length
is its work.
-/

namespace Vtorrent

open Std RootedPaths

/-- The maps kept about every known block. -/
@[ext]
structure BlockIndex where
  blocks : ExtTreeMap Hash Block
  headers : ExtTreeMap Hash BlockHeader
  cumulativeWork : ExtTreeMap Hash Nat
  parentMap : ExtTreeMap Hash Hash
  blockHeights : ExtTreeMap Hash Nat

def Chain.index (chain : Chain) : BlockIndex where
  blocks := chain.blocks
  headers := chain.headers
  cumulativeWork := chain.cumulativeWork
  parentMap := chain.parentMap
  blockHeights := chain.blockHeights

theorem Chain.ext_index {first second : Chain} (index : first.index = second.index)
    (ledger : first.toLedger = second.toLedger)
    (options : first.toChainOptions = second.toChainOptions)
    (blockBodyCache : first.blockBodyCache = second.blockBodyCache)
    (heightIndex : first.heightIndex = second.heightIndex)
    (txIndex : first.txIndex = second.txIndex)
    (journals : first.journals = second.journals)
    (maxReorgDepth : first.maxReorgDepth = second.maxReorgDepth) : first = second := by
  cases first
  cases second
  simp only [Chain.index, BlockIndex.mk.injEq] at index
  simp_all

namespace BlockIndex

def parent (index : BlockIndex) (hash : Hash) : Option Hash := index.parentMap[hash]?

def record (index : BlockIndex) (hash : Hash) (block : Block) (work height : Nat) :
    BlockIndex where
  blocks := index.blocks.insert hash block
  headers := index.headers.insert hash block.header
  cumulativeWork := index.cumulativeWork.insert hash work
  parentMap := index.parentMap.insert hash block.header.prevBlockHash
  blockHeights := index.blockHeights.insert hash height

def evict (index : BlockIndex) (hash : Hash) : BlockIndex where
  blocks := index.blocks.erase hash
  headers := index.headers.erase hash
  cumulativeWork := index.cumulativeWork.erase hash
  parentMap := index.parentMap.erase hash
  blockHeights := index.blockHeights.erase hash

structure AgreesAt (index index' : BlockIndex) (hash : Hash) : Prop where
  blocks : index'.blocks[hash]? = index.blocks[hash]?
  headers : index'.headers[hash]? = index.headers[hash]?
  work : index'.cumulativeWork[hash]? = index.cumulativeWork[hash]?
  parent : index'.parentMap[hash]? = index.parentMap[hash]?
  heights : index'.blockHeights[hash]? = index.blockHeights[hash]?

theorem agreesAt_record {index : BlockIndex} {hash other : Hash} {block : Block}
    {work height : Nat} (different : other ≠ hash) :
    AgreesAt index (index.record hash block work height) other :=
  ⟨FiniteMap.getElem?_insert_of_ne different, FiniteMap.getElem?_insert_of_ne different,
    FiniteMap.getElem?_insert_of_ne different, FiniteMap.getElem?_insert_of_ne different,
    FiniteMap.getElem?_insert_of_ne different⟩

theorem agreesAt_evict {index : BlockIndex} {hash other : Hash}
    (different : other ≠ hash) : AgreesAt index (index.evict hash) other :=
  ⟨FiniteMap.getElem?_erase_of_ne different, FiniteMap.getElem?_erase_of_ne different,
    FiniteMap.getElem?_erase_of_ne different, FiniteMap.getElem?_erase_of_ne different,
    FiniteMap.getElem?_erase_of_ne different⟩

def withChild (crypto : Crypto) (block : Block) (height : Nat) (index : BlockIndex) :
    BlockIndex :=
  index.record (block.hash crypto) block (height + 2) (height + 1)

variable {crypto : Crypto} {block : Block} {height : Nat} {index : BlockIndex}

theorem agreesAt_withChild {hash : Hash} (different : hash ≠ block.hash crypto) :
    AgreesAt index (index.withChild crypto block height) hash :=
  agreesAt_record different

@[simp]
theorem blocks_withChild :
    (index.withChild crypto block height).blocks[block.hash crypto]? = some block := by
  simp [withChild, record]

@[simp]
theorem parent_withChild :
    (index.withChild crypto block height).parent (block.hash crypto) =
      some block.header.prevBlockHash := by
  simp [withChild, record, parent]

@[simp]
theorem blockHeights_withChild :
    (index.withChild crypto block height).blockHeights[block.hash crypto]? =
      some (height + 1) := by
  simp [withChild, record]

end BlockIndex

structure Child (network : Network) (allowPow : Bool) (index : BlockIndex) (hash : Hash)
    (block parent : Block) (height : Nat) : Prop where
  hashed : block.hash network.crypto = hash
  linked : index.parentMap[hash]? = some block.header.prevBlockHash
  parentBody : index.blocks[block.header.prevBlockHash]? = some parent
  parentHeight : index.blockHeights[block.header.prevBlockHash]? = some height
  recorded : index.blockHeights[hash]? = some (height + 1)
  valid : BlockValid network.crypto block
    (Chain.parentView parent.header height block.header.prevBlockHash) allowPow

theorem Child.congr {network : Network} {allowPow : Bool} {index index' : BlockIndex}
    {hash : Hash} {block parent : Block} {height : Nat}
    (child : Child network allowPow index hash block parent height)
    (same : index.AgreesAt index' hash)
    (sameParent : index.AgreesAt index' block.header.prevBlockHash) :
    Child network allowPow index' hash block parent height :=
  ⟨child.hashed, same.parent.trans child.linked,
    sameParent.blocks.trans child.parentBody,
    sameParent.heights.trans child.parentHeight, same.heights.trans child.recorded,
    child.valid⟩

def Network.genesisHash (network : Network) : Hash :=
  network.genesisBlock.hash network.crypto

/-- The known blocks form a tree of valid blocks rooted at genesis. -/
structure BlockTree (network : Network) (allowPow : Bool) (index : BlockIndex) : Prop where
  headers : ∀ hash : Hash, index.headers[hash]? = index.blocks[hash]?.map Block.header
  work : ∀ hash : Hash,
    index.cumulativeWork[hash]? = index.blockHeights[hash]?.map (· + 1)
  known : ∀ hash : Hash, index.blockHeights[hash]?.isSome = index.blocks[hash]?.isSome
  parents : ∀ hash parent : Hash, index.parentMap[hash]? = some parent →
    index.blocks[hash]?.isSome = true
  genesisBody : index.blocks[network.genesisHash]? = some network.genesisBlock
  genesisHeight : index.blockHeights[network.genesisHash]? = some 0
  genesisParent : index.parentMap[network.genesisHash]? = none
  child : ∀ (hash : Hash) (block : Block), index.blocks[hash]? = some block →
    hash ≠ network.genesisHash →
    ∃ parent height, Child network allowPow index hash block parent height

def Stored (crypto : Crypto) (index : BlockIndex) (branch : List Block) : Prop :=
  ∀ block ∈ branch, index.blocks[block.hash crypto]? = some block

theorem Stored.congr {crypto : Crypto} {index index' : BlockIndex} {branch : List Block}
    (stored : Stored crypto index branch)
    (same : ∀ block ∈ branch, index.AgreesAt index' (block.hash crypto)) :
    Stored crypto index' branch := by
  intro block member
  rw [(same block member).blocks]
  exact stored block member

theorem Stored.ext {crypto : Crypto} {index : BlockIndex} {first second : List Block}
    (firstStored : Stored crypto index first) (secondStored : Stored crypto index second)
    (same : first.map (Block.hash crypto) = second.map (Block.hash crypto)) :
    first = second := by
  induction first generalizing second with
  | nil =>
      rw [List.map_nil, eq_comm, List.map_eq_nil_iff] at same
      exact same.symm
  | cons block first ih =>
      cases second with
      | nil => simp at same
      | cons other second =>
          rw [List.map_cons, List.map_cons, List.cons.injEq] at same
          have body := firstStored block List.mem_cons_self
          rw [same.1, secondStored other List.mem_cons_self] at body
          cases body
          rw [ih (fun block member => firstStored block (List.mem_cons_of_mem _ member))
            (fun block member => secondStored block (List.mem_cons_of_mem _ member)) same.2]

namespace BlockTree

variable {network : Network} {allowPow : Bool} {index : BlockIndex} {hash : Hash}
  {block : Block}

theorem absent (tree : BlockTree network allowPow index) (fresh : hash ∉ index.blockHeights) :
    index.blocks[hash]? = none ∧ index.headers[hash]? = none ∧
      index.cumulativeWork[hash]? = none ∧ index.parentMap[hash]? = none ∧
      index.blockHeights[hash]? = none := by
  have noHeight : index.blockHeights[hash]? = none := ExtTreeMap.getElem?_eq_none fresh
  have noBody : index.blocks[hash]? = none := by
    have same := tree.known hash
    rw [noHeight] at same
    exact Option.isSome_eq_false_iff.mp same.symm |> Option.isNone_iff_eq_none.mp
  refine ⟨noBody, by simp [tree.headers, noBody], by simp [tree.work, noHeight], ?_,
    noHeight⟩
  cases parent : index.parentMap[hash]? with
  | none => rfl
  | some above =>
      have body := tree.parents hash above parent
      simp [noBody] at body

/-- The maps have the same keys, apart from the missing parent of genesis. -/
theorem same_keys (tree : BlockTree network allowPow index) (hash : Hash) :
    (hash ∈ index.blocks ↔ hash ∈ index.blockHeights) ∧
      (hash ∈ index.headers ↔ hash ∈ index.blockHeights) ∧
      (hash ∈ index.cumulativeWork ↔ hash ∈ index.blockHeights) := by
  simp only [ExtTreeMap.mem_iff_isSome_getElem?, tree.headers, tree.work, tree.known,
    Option.isSome_map, and_self]

theorem hash_of_body (tree : BlockTree network allowPow index)
    (body : index.blocks[hash]? = some block) : block.hash network.crypto = hash := by
  by_cases genesis : hash = network.genesisHash
  · rw [genesis, tree.genesisBody] at body
    cases body
    exact genesis.symm
  · obtain ⟨parent, height, child⟩ := tree.child hash block body genesis
    exact child.hashed

theorem withChild (tree : BlockTree network allowPow index) {parent : Block} {height : Nat}
    (fresh : block.hash network.crypto ∉ index.blockHeights)
    (parentBody : index.blocks[block.header.prevBlockHash]? = some parent)
    (parentHeight : index.blockHeights[block.header.prevBlockHash]? = some height)
    (valid : BlockValid network.crypto block
      (Chain.parentView parent.header height block.header.prevBlockHash) allowPow) :
    BlockTree network allowPow (index.withChild network.crypto block height) := by
  unfold BlockIndex.withChild
  obtain ⟨noBody, -⟩ := tree.absent fresh
  have agrees : ∀ other, other ≠ block.hash network.crypto →
      index.AgreesAt (index.record (block.hash network.crypto) block (height + 2)
        (height + 1)) other :=
    fun other different => BlockIndex.agreesAt_record different
  have apart : ∀ other, index.blocks[other]?.isSome = true →
      other ≠ block.hash network.crypto := by
    rintro other held rfl
    simp [noBody] at held
  have genesisApart := apart network.genesisHash (by simp [tree.genesisBody])
  have parentApart := apart block.header.prevBlockHash (by simp [parentBody])
  constructor
  · intro other
    by_cases same : other = block.hash network.crypto
    · simp [same, BlockIndex.record]
    · rw [(agrees other same).headers, (agrees other same).blocks, tree.headers]
  · intro other
    by_cases same : other = block.hash network.crypto
    · simp [same, BlockIndex.record]
    · rw [(agrees other same).work, (agrees other same).heights, tree.work]
  · intro other
    by_cases same : other = block.hash network.crypto
    · simp [same, BlockIndex.record]
    · rw [(agrees other same).heights, (agrees other same).blocks, tree.known]
  · intro other above linked
    by_cases same : other = block.hash network.crypto
    · simp [same, BlockIndex.record]
    · rw [(agrees other same).parent] at linked
      rw [(agrees other same).blocks, tree.parents other above linked]
  · rw [(agrees _ genesisApart).blocks, tree.genesisBody]
  · rw [(agrees _ genesisApart).heights, tree.genesisHeight]
  · rw [(agrees _ genesisApart).parent, tree.genesisParent]
  · intro other body held notGenesis
    by_cases same : other = block.hash network.crypto
    · obtain rfl : block = body := by simpa [same, BlockIndex.record] using held
      refine ⟨parent, height, same.symm, ?_, ?_, ?_, ?_, valid⟩
      · simp [same, BlockIndex.record]
      · rw [(agrees _ parentApart).blocks, parentBody]
      · rw [(agrees _ parentApart).heights, parentHeight]
      · simp [same, BlockIndex.record]
    · rw [(agrees other same).blocks] at held
      obtain ⟨above, aboveHeight, child⟩ := tree.child other body held notGenesis
      exact ⟨above, aboveHeight, child.congr (agrees other same)
        (agrees _ (apart _ (by simp [child.parentBody])))⟩

theorem evict (tree : BlockTree network allowPow index) (notGenesis : hash ≠ network.genesisHash)
    (leaf : ∀ other : Hash, index.parentMap[other]? ≠ some hash) :
    BlockTree network allowPow (index.evict hash) := by
  have agrees : ∀ other, other ≠ hash → index.AgreesAt (index.evict hash) other :=
    fun other different => BlockIndex.agreesAt_evict different
  constructor
  · intro other
    by_cases same : other = hash
    · simp [same, BlockIndex.evict]
    · rw [(agrees other same).headers, (agrees other same).blocks, tree.headers]
  · intro other
    by_cases same : other = hash
    · simp [same, BlockIndex.evict]
    · rw [(agrees other same).work, (agrees other same).heights, tree.work]
  · intro other
    by_cases same : other = hash
    · simp [same, BlockIndex.evict]
    · rw [(agrees other same).heights, (agrees other same).blocks, tree.known]
  · intro other above linked
    by_cases same : other = hash
    · simp [same, BlockIndex.evict] at linked
    · rw [(agrees other same).parent] at linked
      rw [(agrees other same).blocks, tree.parents other above linked]
  · rw [(agrees _ notGenesis.symm).blocks, tree.genesisBody]
  · rw [(agrees _ notGenesis.symm).heights, tree.genesisHeight]
  · rw [(agrees _ notGenesis.symm).parent, tree.genesisParent]
  · intro other body held otherNotGenesis
    by_cases same : other = hash
    · simp [same, BlockIndex.evict] at held
    · rw [(agrees other same).blocks] at held
      obtain ⟨above, aboveHeight, child⟩ := tree.child other body held otherNotGenesis
      have aboveApart : body.header.prevBlockHash ≠ hash := by
        intro equal
        exact leaf other (by rw [child.linked, equal])
      exact ⟨above, aboveHeight, child.congr (agrees other same) (agrees _ aboveApart)⟩

theorem evict_record (tree : BlockTree network allowPow index) (block : Block)
    (work height : Nat) (fresh : hash ∉ index.blockHeights) :
    (index.record hash block work height).evict hash = index := by
  obtain ⟨noBody, noHeader, noWork, noParent, -⟩ := tree.absent fresh
  have absent_of {ν : Type} {map : ExtTreeMap Hash ν} (none : map[hash]? = none) :
      hash ∉ map := by
    rw [ExtTreeMap.mem_iff_isSome_getElem?, none]
    simp
  apply BlockIndex.ext
  · exact FiniteMap.erase_insert (absent_of noBody)
  · exact FiniteMap.erase_insert (absent_of noHeader)
  · exact FiniteMap.erase_insert (absent_of noWork)
  · exact FiniteMap.erase_insert (absent_of noParent)
  · exact FiniteMap.erase_insert fresh

theorem height_of_path (tree : BlockTree network allowPow index) {path : List Hash}
    (whole : Path network.genesisHash index.parent hash path) :
    index.blockHeights[hash]? = some (path.length - 1) := by
  induction whole with
  | root => exact tree.genesisHeight
  | @child node above path linked earlier ih =>
      obtain ⟨body, held⟩ := Option.isSome_iff_exists.mp (tree.parents _ _ linked)
      have notGenesis : node ≠ network.genesisHash := by
        rintro rfl
        rw [BlockIndex.parent, tree.genesisParent] at linked
        cases linked
      obtain ⟨parent, height, child⟩ := tree.child _ _ held notGenesis
      have sameParent : body.header.prevBlockHash = above := by
        rw [BlockIndex.parent, child.linked] at linked
        exact Option.some.inj linked
      have sameHeight := child.parentHeight
      rw [sameParent, ih] at sameHeight
      have positive := List.length_pos_iff.mpr earlier.ne_nil
      have exactly : path.length - 1 = height := Option.some.inj sameHeight
      rw [child.recorded, ← exactly, List.length_append, List.length_singleton]
      congr 1
      omega

theorem path (tree : BlockTree network allowPow index) {height : Nat}
    (known : index.blockHeights[hash]? = some height) :
    ∃ path, Path network.genesisHash index.parent hash path ∧
      path.length = height + 1 := by
  induction height generalizing hash with
  | zero =>
      by_cases genesis : hash = network.genesisHash
      · exact ⟨[hash], genesis ▸ .root, rfl⟩
      · have held : index.blocks[hash]?.isSome = true := by
          rw [← tree.known, known]
          rfl
        obtain ⟨body, held⟩ := Option.isSome_iff_exists.mp held
        obtain ⟨parent, height, child⟩ := tree.child hash body held genesis
        rw [child.recorded] at known
        cases known
  | succ height ih =>
      have notGenesis : hash ≠ network.genesisHash := by
        rintro rfl
        rw [tree.genesisHeight] at known
        cases known
      have held : index.blocks[hash]?.isSome = true := by
        rw [← tree.known, known]
        rfl
      obtain ⟨body, held⟩ := Option.isSome_iff_exists.mp held
      obtain ⟨parent, parentHeight, child⟩ := tree.child hash body held notGenesis
      rw [child.recorded] at known
      obtain rfl : parentHeight = height := by simpa using known
      obtain ⟨path, earlier, length⟩ := ih child.parentHeight
      exact ⟨path ++ [hash], .child child.linked earlier, by simp [length]⟩

theorem bodies (tree : BlockTree network allowPow index) {path : List Hash}
    (whole : Path network.genesisHash index.parent hash path) :
    ∃ branch, Stored network.crypto index branch ∧
      branch.map (Block.hash network.crypto) = path := by
  induction whole with
  | root =>
      refine ⟨[network.genesisBlock], ?_, rfl⟩
      intro block member
      rw [List.mem_singleton.mp member]
      exact tree.genesisBody
  | child linked earlier ih =>
      obtain ⟨branch, stored, hashes⟩ := ih
      obtain ⟨body, held⟩ := Option.isSome_iff_exists.mp (tree.parents _ _ linked)
      have hashed := tree.hash_of_body held
      refine ⟨branch ++ [body], ?_, by simp [hashes, hashed]⟩
      intro block member
      rcases List.mem_append.mp member with before | last
      · exact stored block before
      · rw [List.mem_singleton.mp last, hashed]
        exact held

theorem length_path_le (tree : BlockTree network allowPow index) {path : List Hash}
    (whole : Path network.genesisHash index.parent hash path) :
    path.length ≤ index.parentMap.size + 1 := by
  have subset : path.tail ⊆ index.parentMap.keys := by
    intro key member
    rw [ExtTreeMap.mem_keys, ExtTreeMap.mem_iff_isSome_getElem?]
    exact whole.linked_of_mem member
  have nodup : path.tail.Nodup := (whole.nodup tree.genesisParent).tail
  have le := (nodup.subperm subset).length_le
  rw [ExtTreeMap.length_keys, List.length_tail] at le
  omega

theorem validNext {options : ChainOptions}
    (tree : BlockTree network options.allowPowTestBlocks index)
    {main rest : List Block} (nonempty : main ≠ [])
    (stored : Stored network.crypto index (main ++ block :: rest))
    (whole : Path network.genesisHash index.parent hash
      ((main ++ block :: rest).map (Block.hash network.crypto))) :
    main.getLast?.map (Block.hash network.crypto) = some block.header.prevBlockHash ∧
      MainChain.ValidNext network options main block := by
  rw [List.map_append, List.map_cons] at whole
  have held : index.blocks[block.hash network.crypto]? = some block :=
    stored block (by simp)
  obtain ⟨-, above, linked, earlier⟩ := whole.of_append.last_child (by simpa using nonempty)
  have notGenesis : block.hash network.crypto ≠ network.genesisHash := by
    intro genesis
    rw [genesis, BlockIndex.parent, tree.genesisParent] at linked
    cases linked
  obtain ⟨parent, height, child⟩ := tree.child _ _ held notGenesis
  obtain rfl : block.header.prevBlockHash = above := by
    rw [BlockIndex.parent, child.linked] at linked
    exact Option.some.inj linked
  have last := earlier.getLast?
  rw [List.getLast?_map] at last
  refine ⟨last, ?_⟩
  intro tip member
  rw [Option.mem_def] at member
  rw [member, Option.map_some, Option.some.injEq] at last
  have tipBody := stored tip (List.mem_append_left _ (List.mem_of_getLast? member))
  rw [last, child.parentBody] at tipBody
  cases tipBody
  have sameHeight := tree.height_of_path earlier
  rw [child.parentHeight, List.length_map] at sameHeight
  rw [← Option.some.inj sameHeight]
  exact child.valid

end BlockTree

end Vtorrent
