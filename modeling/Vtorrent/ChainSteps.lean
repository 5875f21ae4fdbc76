import Vtorrent.ConsistentChain

/-!
# Every call keeps the chain consistent

The four ways of accepting a block lead from a consistent chain to a consistent
chain, and a rejected block leaves the chain as it was.
-/

namespace Vtorrent

open Std RootedPaths MainChain Retained

section Steps

variable {network : Network} {options : ChainOptions}
  {view : LedgerView network options} {accepted : Block → Prop} {chain : Chain}
  {main : List Block} {journals : List BlockJournal} {block : Block}
  {call : CallContext} {parent : BlockHeader} {height : Nat}

theorem Coherent.index_storeBlock
    (coherent : Coherent view accepted chain main journals)
    (known : chain.blockHeights[block.header.prevBlockHash]? = some height) :
    (chain.storeBlock network.crypto block height).index =
      chain.index.withChild network.crypto block height := by
  simp only [Chain.storeBlock, coherent.workOf known]
  rfl

theorem Coherent.bodies_withChild
    (coherent : Coherent view accepted chain main journals)
    (accepts : accepted block) (height : Nat) :
    ∀ (hash : Hash) (body : Block),
      (chain.index.withChild network.crypto block height).blocks[hash]? = some body →
      hash ≠ network.genesisHash → accepted body := by
  intro hash body held notGenesis
  by_cases same : hash = block.hash network.crypto
  · rw [same, BlockIndex.blocks_withChild] at held
    cases held
    exact accepts
  · rw [(BlockIndex.agreesAt_withChild same).blocks] at held
    exact coherent.bodies hash body held notGenesis

theorem Coherent.storeBlock
    (coherent : Coherent view accepted chain main journals)
    (vetted : Vetted network call chain block parent height)
    (header : chain.headers[block.header.prevBlockHash]? = some parent)
    (known : chain.blockHeights[block.header.prevBlockHash]? = some height)
    (accepts : accepted block) :
    Coherent view accepted (chain.storeBlock network.crypto block height)
      main journals := by
  have index := coherent.index_storeBlock known
  have valid := vetted.valid
  rw [coherent.settings] at valid
  obtain ⟨tip, path⟩ := coherent.path
  exact {
    held := coherent.held
    settings := coherent.settings
    heightIndex := coherent.heightIndex
    journals := coherent.journals
    stored := index ▸ coherent.stored_withChild vetted.fresh
    path := ⟨tip, index ▸ coherent.path_withChild vetted.fresh path⟩
    tree := index ▸ coherent.tree_withChild vetted.fresh header known valid
    bodies := coherent.bodies_withChild accepts height
    unlimited := coherent.unlimited
    reorgDepth := coherent.reorgDepth }

theorem heights_withChild (crypto : Crypto) (block : Block) {bound : Nat}
    (best : ∀ (hash : Hash) (height : Nat), chain.blockHeights[hash]? = some height →
      height < bound) (below : height + 1 < bound) :
    ∀ (hash : Hash) (other : Nat),
      (chain.index.withChild crypto block height).blockHeights[hash]? =
        some other → other < bound := by
  intro hash other held
  by_cases same : hash = block.hash crypto
  · rw [same, BlockIndex.blockHeights_withChild] at held
    cases held
    exact below
  · rw [(BlockIndex.agreesAt_withChild same).heights] at held
    exact best hash other held

theorem Coherent.tip (coherent : Coherent view accepted chain main journals) :
    ∃ last, main.getLast? = some last ∧
      chain.bestHash = some (last.hash network.crypto) ∧
      chain.headers[last.hash network.crypto]? = some last.header ∧
      chain.blockHeights[last.hash network.crypto]? = some (main.length - 1) := by
  have last := List.getLast?_eq_some_getLast coherent.ne_nil
  have tip : chain.bestHash =
      some ((main.getLast coherent.ne_nil).hash network.crypto) := by
    rw [coherent.toTracks.bestHash, last]
    rfl
  refine ⟨_, last, tip, ?_, coherent.tipHeight tip⟩
  have body := coherent.stored _ (List.mem_of_getLast? last)
  exact (coherent.tree.headers _).trans (by rw [body]; rfl)

theorem Coherent.bestHeight_succ
    (coherent : Coherent view accepted chain main journals) :
    chain.bestHeight + 1 = main.length := by
  have positive := List.length_pos_iff.mpr coherent.ne_nil
  rw [coherent.toTracks.bestHeight]
  omega

theorem Coherent.validNext
    (coherent : Coherent view accepted chain main journals)
    (onTip : block.header.prevBlockHash = chain.bestHash.getD zeroHash)
    (header : chain.getHeaderAtHeight chain.bestHeight = some parent)
    (valid : BlockValid network.crypto block
      (Chain.parentView parent chain.bestHeight block.header.prevBlockHash)
      chain.allowPowTestBlocks) :
    main.getLast?.map (Block.hash network.crypto) = some block.header.prevBlockHash ∧
      ValidNext network options main block := by
  obtain ⟨last, isLast, bestHash, -, -⟩ := coherent.tip
  rw [bestHash, Option.getD_some] at onTip
  rw [coherent.toTracks.getHeaderAtHeight coherent.tree, coherent.toTracks.bestHeight,
    ← List.getLast?_eq_getElem?, isLast, Option.map_some, Option.some.injEq] at header
  subst header
  rw [coherent.toTracks.bestHeight, coherent.settings] at valid
  refine ⟨by rw [isLast, onTip]; rfl, ?_⟩
  intro tip member
  rw [Option.mem_def, isLast, Option.some.injEq] at member
  rwa [← member]

def Chain.appended (crypto : Crypto) (block : Block) (journal : BlockJournal)
    (ledger : Ledger) (chain : Chain) : Chain :=
  { chain with toLedger := ledger }.appendBlock crypto block (chain.bestHeight + 1) journal

theorem Coherent.index_appended {journal : BlockJournal} {ledger : Ledger}
    (coherent : Coherent view accepted chain main journals)
    (linked : main.getLast?.map (Block.hash network.crypto) =
      some block.header.prevBlockHash) :
    (chain.appended network.crypto block journal ledger).index =
      chain.index.withChild network.crypto block (main.length - 1) := by
  obtain ⟨last, isLast, -, -, lastHeight⟩ := coherent.tip
  rw [isLast, Option.map_some, Option.some.injEq] at linked
  rw [linked] at lastHeight
  have work : ({ chain with toLedger := ledger } : Chain).workOf
      block.header.prevBlockHash = main.length - 1 + 1 :=
    coherent.workOf lastHeight
  simp only [Chain.appended, Chain.appendBlock, work, coherent.toTracks.bestHeight]
  rfl

theorem Consistent.appended {journal : BlockJournal} {ledger : Ledger}
    (consistent : Consistent view accepted chain main journals)
    (extended : Extends network options main chain.toLedger block journal ledger)
    (fresh : block.hash network.crypto ∉ chain.blockHeights)
    (admitted : view.admits block) (accepts : accepted block) :
    Consistent view accepted
      (chain.appended network.crypto block journal ledger)
      (main ++ [block]) (journals ++ [journal]) := by
  have positive := List.length_pos_iff.mpr consistent.ne_nil
  obtain ⟨last, isLast, bestHash, lastHeader, lastHeight⟩ := consistent.toCoherent.tip
  obtain ⟨tip, path⟩ := consistent.path
  have ends := path.getLast?
  rw [List.getLast?_map, extended.linked] at ends
  obtain rfl : tip = block.header.prevBlockHash := (Option.some.inj ends).symm
  have linked := extended.linked
  rw [isLast, Option.map_some, Option.some.injEq] at linked
  rw [linked] at lastHeader lastHeight
  have index : (chain.appended network.crypto block journal ledger).index =
      chain.index.withChild network.crypto block (main.length - 1) :=
    consistent.toCoherent.index_appended extended.linked
  have stored : Stored network.crypto
      (chain.appended network.crypto block journal ledger).index (main ++ [block]) := by
    rw [index]
    intro other member
    rcases List.mem_append.mp member with before | here
    · exact consistent.toCoherent.stored_withChild fresh other before
    · rw [List.mem_singleton.mp here]
      exact BlockIndex.blocks_withChild
  have newPath : Path network.genesisHash
      (chain.appended network.crypto block journal ledger).index.parent
      (block.hash network.crypto) ((main ++ [block]).map (Block.hash network.crypto)) := by
    rw [index, List.map_append]
    exact consistent.toCoherent.newPath_withChild fresh path
  have tracks : Tracks view
      (chain.appended network.crypto block journal ledger) (main ++ [block])
      (journals ++ [journal]) :=
    consistent.toTracks.extend admitted extended rfl rfl rfl (List.drop_suffix _ _) rfl stored
      ⟨_, newPath⟩
  have valid := extended.valid last isLast
  exact {
    toTracks := tracks
    tree := index ▸ consistent.toCoherent.tree_withChild fresh lastHeader lastHeight valid
    bodies := by
      have bodies := consistent.toCoherent.bodies_withChild accepts (main.length - 1)
      rwa [← index] at bodies
    unlimited := consistent.unlimited
    reorgDepth := consistent.reorgDepth
    best := by
      rw [List.length_append, List.length_singleton]
      have below := heights_withChild network.crypto block
        (fun hash height held => Nat.lt_succ_of_lt (consistent.best hash height held))
        (show main.length - 1 + 1 < main.length + 1 by omega)
      rwa [← index] at below }

theorem Coherent.extended {journal : BlockJournal} {applied : Chain}
    (coherent : Coherent view accepted chain main journals)
    (onTip : block.header.prevBlockHash = chain.bestHash.getD zeroHash)
    (header : chain.getHeaderAtHeight chain.bestHeight = some parent)
    (vetted : Vetted network call chain block parent chain.bestHeight)
    (ran : chain.applyBlockJournaled network block (chain.bestHeight + 1) =
      .ok journal applied)
    (rooted : Chain.utxoRootWrong block journal = false) :
    ∃ ledger, applied = { chain with toLedger := ledger } ∧
      Extends network options main chain.toLedger block journal ledger := by
  obtain ⟨linked, valid⟩ := coherent.validNext onTip header vetted.valid
  rw [coherent.bestHeight_succ, coherent.toTracks.applyBlockJournaled coherent.tree linked]
    at ran
  cases onLedger : Vtorrent.applyBlockJournaled network
      (MainChain.context network options main block) block.transactions
      chain.toLedger with
  | error error ledger =>
      rw [onLedger] at ran
      cases ran
  | ok made ledger =>
      rw [onLedger] at ran
      cases ran
      exact ⟨ledger, rfl, linked, valid, onLedger, rooted⟩

theorem Coherent.accepts_appended {journal : BlockJournal} {ledger : Ledger}
    (coherent : Coherent view accepted chain main journals)
    (extended : Extends network options main chain.toLedger block journal ledger)
    (fresh : block.hash network.crypto ∉ chain.blockHeights)
    (timely : block.header.timestamp.toNat ≤ latestTimestamp call.now) :
    Accepts network call chain block
      (.mainChain (chain.bestHeight + 1) (Chain.mainDiff ledger journal.changes).1
        (Chain.mainDiff ledger journal.changes).2 journal.claimedAddresses)
      ((chain.appended network.crypto block journal ledger).pruneBodies
        call.keyOrder) := by
  obtain ⟨last, isLast, bestHash, -, -⟩ := coherent.tip
  have linked := extended.linked
  rw [isLast, Option.map_some, Option.some.injEq] at linked
  have valid := extended.valid last isLast
  rw [← coherent.toTracks.bestHeight, ← coherent.settings] at valid
  have onTip : block.header.prevBlockHash = chain.bestHash.getD zeroHash := by
    rw [bestHash, Option.getD_some, linked]
  have header : chain.getHeaderAtHeight chain.bestHeight = some last.header := by
    rw [coherent.toTracks.getHeaderAtHeight coherent.tree, coherent.toTracks.bestHeight,
      ← List.getLast?_eq_getElem?, isLast]
    rfl
  have ran : chain.applyBlockJournaled network block (chain.bestHeight + 1) =
      .ok journal { chain with toLedger := ledger } := by
    rw [coherent.bestHeight_succ,
      coherent.toTracks.applyBlockJournaled coherent.tree extended.linked,
      extended.applied]
  exact .mainChain onTip header ⟨fresh, valid, timely⟩ ran extended.rooted

theorem Coherent.workOf_tip
    (coherent : Coherent view accepted chain main journals) :
    chain.workOf (chain.bestHash.getD zeroHash) = main.length := by
  obtain ⟨last, -, bestHash, -, lastHeight⟩ := coherent.tip
  have positive := List.length_pos_iff.mpr coherent.ne_nil
  rw [bestHash, Option.getD_some, coherent.workOf lastHeight]
  omega

theorem Consistent.fork
    (consistent : Consistent view accepted chain main journals)
    (header : chain.headers[block.header.prevBlockHash]? = some parent)
    (known : chain.blockHeights[block.header.prevBlockHash]? = some height)
    (vetted : Vetted network call chain block parent height)
    (weaker : chain.workOf block.header.prevBlockHash + 1 ≤
      (chain.storeBlock network.crypto block height).workOf
        (chain.bestHash.getD zeroHash)) (accepts : accepted block) :
    Consistent view accepted (chain.storeBlock network.crypto block height)
      main journals := by
  have stored := consistent.toCoherent.storeBlock vetted header known accepts
  have below : height + 1 < main.length := by
    have tipWork : (chain.storeBlock network.crypto block height).workOf
        (chain.bestHash.getD zeroHash) = main.length := stored.workOf_tip
    rw [consistent.toCoherent.workOf known, tipWork] at weaker
    omega
  have heights := heights_withChild network.crypto block consistent.best below
  rw [← consistent.toCoherent.index_storeBlock known] at heights
  exact { toCoherent := stored, best := heights }

theorem Coherent.storedBranch
    (coherent : Coherent view accepted chain main journals)
    (fresh : block.hash network.crypto ∉ chain.blockHeights)
    (known : chain.blockHeights[block.header.prevBlockHash]? = some height) :
    ∃ earlier : List Block, earlier.length = height + 1 ∧
      Stored network.crypto chain.index earlier ∧
      Path network.genesisHash chain.index.parent block.header.prevBlockHash
        (earlier.map (Block.hash network.crypto)) ∧
      Stored network.crypto (chain.storeBlock network.crypto block height).index
        (earlier ++ [block]) ∧
      Path network.genesisHash
        (chain.storeBlock network.crypto block height).index.parent
        (block.hash network.crypto)
        ((earlier ++ [block]).map (Block.hash network.crypto)) := by
  obtain ⟨path, whole, length⟩ := coherent.tree.path known
  obtain ⟨earlier, stored, rfl⟩ := coherent.tree.bodies whole
  rw [List.length_map] at length
  refine ⟨earlier, length, stored, whole, ?_, ?_⟩
  · rw [coherent.index_storeBlock known]
    intro other member
    rcases List.mem_append.mp member with before | here
    · refine stored.congr ?_ other before
      intro held inEarlier
      apply coherent.agrees_withChild fresh
      rw [stored held inEarlier]
      rfl
    · rw [List.mem_singleton.mp here]
      exact BlockIndex.blocks_withChild
  · rw [coherent.index_storeBlock known, List.map_append]
    exact coherent.newPath_withChild fresh whole

theorem Coherent.admitted_new {branch common old new : List Block} {tip : Hash}
    (coherent : Coherent view accepted chain main journals)
    (stored : Stored network.crypto chain.index branch)
    (whole : Path network.genesisHash chain.index.parent tip
      (branch.map (Block.hash network.crypto)))
    (forked : Forked network.crypto main branch common old new)
    (admitted : ∀ block, accepted block → view.admits block) :
    ∀ block ∈ new, view.admits block := by
  intro block member
  have inBranch : block ∈ branch := by
    rw [forked.branchSplit]
    exact List.mem_append_right _ member
  apply admitted
  refine coherent.bodies _ block (stored block inBranch) ?_
  intro genesis
  have nodup := whole.nodup coherent.tree.genesisParent
  have head := whole.head?
  obtain ⟨first, rest, rfl⟩ := List.exists_cons_of_ne_nil forked.nonempty
  rw [forked.branchSplit] at nodup head
  rw [List.cons_append, List.map_cons] at nodup head
  have first : first.hash network.crypto = block.hash network.crypto :=
    (Option.some.inj head).trans genesis.symm
  rw [List.nodup_cons, first] at nodup
  exact nodup.1 (List.mem_map_of_mem (List.mem_append_right _ member))

theorem Consistent.height_of_stronger
    (consistent : Consistent view accepted chain main journals)
    (known : chain.blockHeights[block.header.prevBlockHash]? = some height)
    (stored : Coherent view accepted (chain.storeBlock network.crypto block height)
      main journals)
    (stronger : (chain.storeBlock network.crypto block height).workOf
      (chain.bestHash.getD zeroHash) < chain.workOf block.header.prevBlockHash + 1) :
    height + 1 = main.length := by
  have tipWork : (chain.storeBlock network.crypto block height).workOf
      (chain.bestHash.getD zeroHash) = main.length := stored.workOf_tip
  rw [consistent.toCoherent.workOf known, tipWork] at stronger
  have below := consistent.best _ _ known
  omega

/-- A reorganisation to a stored block keeps the state consistent and makes the
main chain one block longer. -/
theorem Consistent.reorg {report : ReorgReport} {switched : Chain}
    (consistent : Consistent view accepted chain main journals)
    (admitted : ∀ block, accepted block → view.admits block)
    (header : chain.headers[block.header.prevBlockHash]? = some parent)
    (known : chain.blockHeights[block.header.prevBlockHash]? = some height)
    (vetted : Vetted network call chain block parent height)
    (stronger : (chain.storeBlock network.crypto block height).workOf
      (chain.bestHash.getD zeroHash) < chain.workOf block.header.prevBlockHash + 1)
    (ran : Chain.reorganizeTo network (block.hash network.crypto) (height + 1)
      (chain.storeBlock network.crypto block height) = .ok report switched)
    (accepts : accepted block) :
    ∃ branch journals', branch.length = main.length + 1 ∧
      switched.journals.length = chain.journals.length + 1 ∧
      report.rolledBackBlocks.length ≤ chain.journals.length ∧
      switched.index = (chain.storeBlock network.crypto block height).index ∧
      Consistent view accepted switched branch journals' := by
  have stored := consistent.toCoherent.storeBlock vetted header known accepts
  have index := consistent.toCoherent.index_storeBlock known
  obtain ⟨earlier, earlierLength, -, -, branchStored, whole⟩ :=
    consistent.toCoherent.storedBranch vetted.fresh known
  have branchLength : (earlier ++ [block]).length = height + 2 := by simp [earlierLength]
  obtain ⟨common, old, new, forked⟩ :=
    exists_forked stored.tree whole stored.toTracks branchStored
  have sameHeight : height + 1 = (earlier ++ [block]).length - 1 := by omega
  rw [sameHeight] at ran
  have newAdmitted := stored.admitted_new branchStored whole forked admitted
  obtain ⟨same, ⟨journals', tracks⟩, covered, counted, reported⟩ :=
    reorganizeTo_eq_ok stored.toTracks stored.tree branchStored whole forked newAdmitted
      ran
  have longer : height + 2 = main.length + 1 :=
    congrArg (· + 1) (consistent.height_of_stronger known stored stronger)
  have oneMore : new.length = old.length + 1 := by
    have mainLength := congrArg List.length forked.mainSplit
    have newLength := congrArg List.length forked.branchSplit
    rw [List.length_append] at mainLength
    rw [branchLength, List.length_append] at newLength
    omega
  have sameJournals : (chain.storeBlock network.crypto block height).journals =
      chain.journals := rfl
  rw [sameJournals] at counted covered
  have heights : ∀ (hash : Hash) (other : Nat),
      switched.index.blockHeights[hash]? = some other →
        other < (earlier ++ [block]).length := by
    rw [same.index, index, branchLength, longer]
    exact heights_withChild network.crypto block
      (fun hash height held => Nat.lt_add_right 1 (consistent.best hash height held))
      (by omega)
  have bodies := stored.bodies
  rw [show (chain.storeBlock network.crypto block height).blocks = switched.blocks from
    (congrArg BlockIndex.blocks same.index).symm] at bodies
  refine ⟨_, journals', branchLength.trans longer, by omega, by omega, same.index, ?_⟩
  exact {
    toTracks := tracks
    tree := same.index ▸ stored.tree
    bodies := bodies
    unlimited := same.blockBodyCache.trans stored.unlimited
    reorgDepth := same.maxReorgDepth.trans stored.reorgDepth
    best := heights }

end Steps

section Rejection

variable {network : Network} {options : ChainOptions}
  {view : LedgerView network options} {accepted : Block → Prop}
  {chain after : Chain} {main : List Block} {journals : List BlockJournal}
  {block : Block} {call : CallContext} {height : Nat} {error : NodeError}

theorem Coherent.evict_storeBlock
    (coherent : Coherent view accepted chain main journals)
    (fresh : block.hash network.crypto ∉ chain.blockHeights) :
    (chain.storeBlock network.crypto block height).evict (block.hash network.crypto) =
      chain := by
  have restored := coherent.tree.evict_record block
    (chain.workOf block.header.prevBlockHash + 1) (height + 1) fresh
  exact Chain.ext_index restored rfl rfl rfl rfl rfl rfl rfl

structure Unmoved (view : LedgerView network options) (chain : Chain)
    (main : List Block) (journals : List BlockJournal) (after : Chain) : Prop where
  frame : after = { chain with toLedger := after.toLedger }
  held : view.holds main after.toLedger chain.txIndex journals

theorem Tracks.unmoved (tracks : Tracks view chain main journals) :
    Unmoved view chain main journals chain :=
  ⟨rfl, tracks.held⟩

theorem Coherent.extendMain_error
    (coherent : Coherent view accepted chain main journals)
    (admitted : view.admits block)
    (onTip : block.header.prevBlockHash = chain.bestHash.getD zeroHash)
    (ran : Chain.extendMain network call block chain = .error error after) :
    Unmoved view chain main journals after := by
  rw [Chain.extendMain, bind_eq_error] at ran
  rcases ran with failed | ⟨current, _, got, ran⟩
  · cases failed
  obtain ⟨rfl, rfl⟩ := get_eq_ok.mp got
  rw [Nat.add_sub_cancel] at ran
  cases header : chain.getHeaderAtHeight chain.bestHeight with
  | none =>
      simp only [header] at ran
      obtain ⟨-, rfl⟩ := throw_eq_error.mp ran
      exact coherent.toTracks.unmoved
  | some parent =>
      simp only [header] at ran
      rw [bind_eq_error] at ran
      rcases ran with failed | ⟨_, _, validatedRan, ran⟩
      · obtain ⟨-, rfl⟩ := ofExcept_eq_error.mp failed
        exact coherent.toTracks.unmoved
      obtain ⟨validated, rfl⟩ := ofExcept_eq_ok.mp validatedRan
      obtain ⟨valid, -⟩ := validateBlockInner_eq_ok.mp validated
      obtain ⟨linked, validNext⟩ := coherent.validNext onTip header valid
      have applies := coherent.toTracks.applyBlockJournaled coherent.tree linked
      rw [coherent.bestHeight_succ, bind_eq_error] at ran
      cases onLedger : Vtorrent.applyBlockJournaled network
          (MainChain.context network options main block) block.transactions
          chain.toLedger with
      | error reason ledger =>
          rw [onLedger] at applies
          rcases ran with failed | ⟨_, _, applied, -⟩
          · rw [applies] at failed
            cases failed
            exact ⟨rfl, view.rejected coherent.held admitted validNext onLedger⟩
          · rw [applies] at applied
            cases applied
      | ok journal ledger =>
          rw [onLedger] at applies
          rcases ran with failed | ⟨_, _, applied, ran⟩
          · rw [applies] at failed
            cases failed
          · rw [applies] at applied
            cases applied
            rw [bind_eq_error] at ran
            rcases ran with failed | ⟨current, _, got, ran⟩
            · cases failed
            obtain ⟨rfl, rfl⟩ := get_eq_ok.mp got
            cases rooted : Chain.utxoRootWrong block journal with
            | false =>
                simp only [rooted, Bool.false_eq_true, if_false] at ran
                cases ran
            | true =>
                simp only [rooted, if_true] at ran
                cases ran
                exact ⟨rfl, view.undone coherent.held admitted validNext onLedger⟩

theorem Coherent.extendFork_error
    (coherent : Coherent view accepted chain main journals)
    (fresh : block.hash network.crypto ∉ chain.blockHeights)
    (ran : Chain.extendFork network call block height chain = .error error after) :
    after = chain := by
  rw [Chain.extendFork, bind_eq_error] at ran
  rcases ran with failed | ⟨current, _, got, ran⟩
  · cases failed
  obtain ⟨rfl, rfl⟩ := get_eq_ok.mp got
  cases header : chain.headers[block.header.prevBlockHash]? with
  | none =>
      simp only [header] at ran
      exact (throw_eq_error.mp ran).2.symm
  | some parent =>
      simp only [header] at ran
      rw [bind_eq_error] at ran
      rcases ran with failed | ⟨_, _, validatedRan, ran⟩
      · exact (ofExcept_eq_error.mp failed).2.symm
      obtain ⟨-, rfl⟩ := ofExcept_eq_ok.mp validatedRan
      rw [bind_eq_error] at ran
      rcases ran with failed | ⟨_, stored, storedRan, ran⟩
      · cases failed
      obtain rfl : chain.storeBlock network.crypto block height = stored := by
        cases storedRan
        rfl
      by_cases stronger : (chain.storeBlock network.crypto block height).workOf
          (chain.bestHash.getD zeroHash) < chain.workOf block.header.prevBlockHash + 1
      · rw [if_pos stronger] at ran
        unfold Chain.switchTo at ran
        split at ran
        · cases ran
        · rename_i reason reached failed
          cases ran
          rw [reorganizeTo_error failed]
          exact coherent.evict_storeBlock fresh
      · rw [if_neg stronger] at ran
        cases ran

theorem Coherent.addBlock_error
    (coherent : Coherent view accepted chain main journals)
    (admitted : view.admits block)
    (ran : Chain.addBlock network call block chain = .error error after) :
    Unmoved view chain main journals after := by
  rw [Chain.addBlock, bind_eq_error] at ran
  rcases ran with failed | ⟨current, _, got, ran⟩
  · cases failed
  obtain ⟨rfl, rfl⟩ := get_eq_ok.mp got
  split at ran
  · cases ran
  · rename_i unknown
    have fresh : block.hash network.crypto ∉ chain.blockHeights := by
      rwa [ExtTreeMap.mem_iff_contains]
    split at ran
    · rename_i onTip
      exact coherent.extendMain_error admitted onTip ran
    · cases known : chain.blockHeights[block.header.prevBlockHash]? with
      | none =>
          simp only [known] at ran
          obtain ⟨-, rfl⟩ := throw_eq_error.mp ran
          exact coherent.toTracks.unmoved
      | some height =>
          simp only [known] at ran
          obtain rfl := coherent.extendFork_error fresh ran
          exact coherent.toTracks.unmoved

theorem Consistent.unmoved
    (consistent : Consistent view accepted chain main journals)
    (unmoved : Unmoved view chain main journals after) :
    Consistent view accepted after main journals := by
  rw [unmoved.frame]
  exact {
    held := unmoved.held
    settings := consistent.settings
    heightIndex := consistent.heightIndex
    journals := consistent.journals
    stored := consistent.stored
    path := consistent.path
    tree := consistent.tree
    bodies := consistent.bodies
    unlimited := consistent.unlimited
    reorgDepth := consistent.reorgDepth
    best := consistent.best }

end Rejection

end Vtorrent
