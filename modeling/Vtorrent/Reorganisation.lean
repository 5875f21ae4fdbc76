import Vtorrent.ReorganisationFrame
import Vtorrent.TrackedChain

/-!
# Switching to another branch

A reorganisation rolls back to the fork point and applies the blocks of the new
branch.  It succeeds exactly when the journals reach back far enough and every
block of the branch extends the chain, and then the chain tracks the branch.
-/

namespace Vtorrent

open Std RootedPaths MainChain Retained

section Rollback

variable {network : Network} {options : ChainOptions}
  {view : LedgerView network options} {chain : Chain}
  {main : List Block} {journals : List BlockJournal} {block : Block}

theorem transactionsOf_of_stored {hash : Hash} (stored : chain.blocks[hash]? = some block) :
    chain.transactionsOf hash = block.transactions := by
  rw [Chain.transactionsOf, stored]

theorem rollbackOneBlock_tracks
    (tracks : Tracks view chain (main ++ [block]) journals)
    (nonempty : main ≠ []) (held : chain.journals ≠ []) :
    ∃ result after journals',
      Chain.rollbackOneBlock network.crypto chain = .ok result after ∧
      after.journals = chain.journals.dropLast ∧
      Tracks view after main journals' := by
  obtain ⟨kept, journal, keptEq⟩ :=
    (List.eq_nil_or_concat' chain.journals).resolve_left held
  obtain ⟨dropped, whole⟩ := tracks.journals
  rw [keptEq, ← List.append_assoc] at whole
  obtain ⟨hashed, earlier⟩ := view.rollback nonempty (whole ▸ tracks.held)
  have transactions : chain.transactionsOf journal.blockHash = block.transactions := by
    have body := tracks.stored block (by simp)
    rw [hashed]
    exact transactionsOf_of_stored body
  rw [← transactions] at earlier
  have last : chain.journals.getLast? = some journal := by simp [keptEq]
  refine ⟨_, _, dropped ++ kept, by rw [Chain.rollbackOneBlock, last], rfl, ?_⟩
  constructor
  · exact earlier
  · exact tracks.settings
  · change chain.heightIndex.dropLast = _
    rw [tracks.heightIndex]
    simp
  · change chain.journals.dropLast <:+ _
    rw [keptEq, List.dropLast_concat]
    exact List.suffix_append dropped kept
  · intro earlier member
    exact tracks.stored earlier (List.mem_append_left _ member)
  · obtain ⟨tip, path⟩ := tracks.path
    rw [List.map_append] at path
    obtain ⟨-, above, -, earlier⟩ := path.last_child (by simpa using nonempty)
    exact ⟨above, earlier⟩

theorem rollbackBlocks_tracks {old : List Block} (report : ReorgReport)
    (tracks : Tracks view chain (main ++ old) journals)
    (nonempty : main ≠ []) (enough : old.length ≤ chain.journals.length) :
    ∃ report' after journals',
      Chain.rollbackBlocks network.crypto old.length report chain = .ok report' after ∧
      report'.rolledBackBlocks.length = report.rolledBackBlocks.length + old.length ∧
      after.journals.length = chain.journals.length - old.length ∧
      Tracks view after main journals' := by
  induction old using List.reverseRecOn generalizing chain journals report with
  | nil =>
      exact ⟨report, chain, journals, rfl, rfl, rfl, by simpa using tracks⟩
  | append_singleton old block ih =>
      rw [← List.append_assoc] at tracks
      rw [List.length_append, List.length_singleton] at enough ⊢
      have held : chain.journals ≠ [] := by
        rintro empty
        simp [empty] at enough
      obtain ⟨⟨txs, rolledBack⟩, middle, middleJournals, ran, dropped, middleTracks⟩ :=
        rollbackOneBlock_tracks tracks (by simp [nonempty]) held
      have enoughLeft : old.length ≤ middle.journals.length := by
        rw [dropped, List.length_dropLast]
        omega
      obtain ⟨report', after, journals', rest, counted, remaining, afterTracks⟩ :=
        ih { report with
          rolledBackTxs := report.rolledBackTxs ++ txs
          rolledBackBlocks := report.rolledBackBlocks ++ [rolledBack] }
          middleTracks enoughLeft
      refine ⟨report', after, journals', ?_, ?_, ?_, afterTracks⟩
      · rw [Chain.rollbackBlocks, bind_eq_ok]
        exact ⟨_, middle, ran, rest⟩
      · rw [counted, List.length_append, List.length_singleton]
        omega
      · rw [remaining, dropped, List.length_dropLast]
        omega

end Rollback

section Apply

variable {network : Network} {options : ChainOptions}
  {view : LedgerView network options} {chain after : Chain}
  {main rest : List Block} {journals : List BlockJournal} {block : Block} {tip : Hash}

def Chain.advance (crypto : Crypto) (block : Block) (journal : BlockJournal)
    (ledger : Ledger) (chain : Chain) : Chain :=
  { chain with
    toLedger := ledger
    txIndex := indexBlock crypto chain.txIndex block
    journals := chain.journals ++ [journal]
    heightIndex := chain.heightIndex ++ [block.hash crypto] }

theorem Tracks.advance {journal : BlockJournal} {ledger : Ledger}
    (tracks : Tracks view chain main journals) (admitted : view.admits block)
    (extended : Extends network options main chain.toLedger block journal ledger)
    (stored : Stored network.crypto chain.index (main ++ block :: rest))
    (whole : Path network.genesisHash chain.index.parent tip
      ((main ++ block :: rest).map (Block.hash network.crypto))) :
    Tracks view (chain.advance network.crypto block journal ledger)
      (main ++ [block]) (journals ++ [journal]) := by
  rw [List.map_append, List.map_cons] at whole
  refine tracks.extend admitted extended rfl rfl rfl List.suffix_rfl rfl ?_
    ⟨block.hash network.crypto, ?_⟩
  · intro earlier member
    apply stored earlier
    rcases List.mem_append.mp member with before | last
    · exact List.mem_append_left _ before
    · rw [List.mem_singleton.mp last]
      simp
  · rw [List.map_append]
    exact whole.of_append

variable (tree : BlockTree network options.allowPowTestBlocks chain.index)
  (stored : Stored network.crypto chain.index (main ++ block :: rest))
  (whole : Path network.genesisHash chain.index.parent tip
    ((main ++ block :: rest).map (Block.hash network.crypto)))

include tree stored whole

theorem applyForkBlock_eq_ok
    (tracks : Tracks view chain main journals) :
    (∃ applied, Chain.applyForkBlock network main.length
      (block.hash network.crypto) chain = .ok applied after) ↔
    ∃ journal ledger, Extends network options main chain.toLedger block journal ledger ∧
      after = chain.advance network.crypto block journal ledger := by
  have body : chain.blocks[block.hash network.crypto]? = some block :=
    stored block (by simp)
  obtain ⟨linked, valid⟩ := tree.validNext tracks.ne_nil stored whole
  have applies := tracks.applyBlockJournaled tree linked
  constructor
  · rintro ⟨applied, ran⟩
    rw [Chain.applyForkBlock, bind_eq_ok] at ran
    obtain ⟨current, middle, got, ran⟩ := ran
    obtain ⟨rfl, rfl⟩ := get_eq_ok.mp got
    simp only [body] at ran
    rw [bind_eq_ok] at ran
    obtain ⟨journal, appliedChain, appliedRan, ran⟩ := ran
    rw [applies] at appliedRan
    cases onLedger : Vtorrent.applyBlockJournaled network
        (MainChain.context network options main block) block.transactions
        chain.toLedger with
    | error error ledger =>
        rw [onLedger] at appliedRan
        cases appliedRan
    | ok made ledger =>
        rw [onLedger] at appliedRan
        cases appliedRan
        rw [bind_eq_ok] at ran
        obtain ⟨_, _, rootedRan, ran⟩ := ran
        obtain ⟨rooted, rfl⟩ := rejectIf_eq_ok.mp rootedRan
        cases ran
        exact ⟨journal, ledger, ⟨linked, valid, onLedger, rooted⟩, rfl⟩
  · rintro ⟨journal, ledger, extended, rfl⟩
    rw [extended.applied] at applies
    refine ⟨{
      block := block
      height := main.length
      utxosAdded := (Chain.forkDiff ledger journal.changes).1
      utxosRemoved := (Chain.forkDiff ledger journal.changes).2
      claimedAddresses := journal.claimedAddresses }, ?_⟩
    rw [Chain.applyForkBlock, bind_eq_ok]
    refine ⟨chain, chain, rfl, ?_⟩
    simp only [body]
    rw [bind_eq_ok]
    refine ⟨journal, _, applies, ?_⟩
    rw [bind_eq_ok]
    refine ⟨(), _, rejectIf_eq_ok.mpr ⟨extended.rooted, rfl⟩, ?_⟩
    rfl

end Apply

section ApplyAll

variable {network : Network} {options : ChainOptions}
  {view : LedgerView network options} {chain after : Chain}
  {main new : List Block} {journals : List BlockJournal} {tip : Hash}

theorem applyForkBlocks_tracks {report report' : ReorgReport}
    (tracks : Tracks view chain main journals)
    (admitted : ∀ block ∈ new, view.admits block)
    (tree : BlockTree network options.allowPowTestBlocks chain.index)
    (stored : Stored network.crypto chain.index (main ++ new))
    (whole : Path network.genesisHash chain.index.parent tip
      ((main ++ new).map (Block.hash network.crypto)))
    (ran : Chain.applyForkBlocks network main.length
      (new.map (Block.hash network.crypto)) report chain = .ok report' after) :
    report'.rolledBackBlocks = report.rolledBackBlocks ∧
      after.journals.length = chain.journals.length + new.length ∧
      ∃ journals', Tracks view after (main ++ new) journals' := by
  induction new generalizing main chain journals report with
  | nil =>
      obtain ⟨rfl, rfl⟩ := pure_eq_ok.mp ran
      exact ⟨rfl, rfl, journals, by simpa using tracks⟩
  | cons block new ih =>
      rw [List.map_cons, Chain.applyForkBlocks, bind_eq_ok] at ran
      obtain ⟨applied, middle, first, ran⟩ := ran
      obtain ⟨journal, ledger, extended, rfl⟩ :=
        (applyForkBlock_eq_ok tree stored whole tracks).mp ⟨applied, first⟩
      have grown := tracks.advance (admitted block List.mem_cons_self) extended stored
        whole
      have regrouped : main ++ block :: new = (main ++ [block]) ++ new := by simp
      rw [regrouped] at stored whole ⊢
      have length : (main ++ [block]).length = main.length + 1 := by simp
      rw [← length] at ran
      obtain ⟨sameReport, counted, tracksAll⟩ := ih grown
        (fun other member => admitted other (List.mem_cons_of_mem _ member)) tree stored
        whole ran
      refine ⟨sameReport, ?_, tracksAll⟩
      rw [counted, List.length_cons]
      change (chain.journals ++ [journal]).length + new.length = _
      rw [List.length_append, List.length_singleton]
      omega

end ApplyAll

section Reorganise

variable {network : Network} {options : ChainOptions}
  {view : LedgerView network options} {chain after : Chain}
  {main branch : List Block} {journals : List BlockJournal} {newTip : Hash}

/-- The main chain and a branch run together up to a fork point. -/
structure Forked (crypto : Crypto) (main branch common old new : List Block) : Prop where
  mainSplit : main = common ++ old
  branchSplit : branch = common ++ new
  nonempty : common ≠ []
  apart : ∀ block ∈ old, block.hash crypto ∉ branch.map (Block.hash crypto)

/-- The blocks to apply are the ones of the branch above the fork point. -/
theorem forkPathOf_eq {common new : List Block} {forkBlock : Block}
    (tree : BlockTree network options.allowPowTestBlocks chain.index)
    (last : common.getLast? = some forkBlock)
    (whole : Path network.genesisHash chain.index.parent newTip
      ((common ++ new).map (Block.hash network.crypto))) :
    chain.forkPathWithin (forkBlock.hash network.crypto) chain.parentMap.size newTip =
      .ok (new.map (Block.hash network.crypto)).reverse := by
  rw [List.map_append] at whole
  have bounded := tree.length_path_le whole
  have nonempty : common ≠ [] := by
    rintro rfl
    simp at last
  have positive := List.length_pos_iff.mpr nonempty
  rw [List.length_append, List.length_map] at bounded
  have size : chain.index.parentMap.size = chain.parentMap.size := rfl
  apply forkPathWithin_eq tree _ whole (by omega)
  rw [List.getLast?_map, last]
  rfl

section Plan

variable (tree : BlockTree network options.allowPowTestBlocks chain.index)
  (whole : Path network.genesisHash chain.index.parent newTip
    (branch.map (Block.hash network.crypto)))

include tree whole

theorem exists_forked (tracks : Tracks view chain main journals)
    (stored : Stored network.crypto chain.index branch) :
    ∃ common old new, Forked network.crypto main branch common old new := by
  obtain ⟨tip, mainPath⟩ := tracks.path
  obtain ⟨common, old, new, mainSplit, branchSplit, nonempty, apart⟩ :=
    mainPath.fork tree.genesisParent whole
  obtain ⟨first, oldBlocks, rfl, firstHashes, oldHashes⟩ :=
    List.map_eq_append_iff.mp mainSplit
  obtain ⟨second, newBlocks, rfl, secondHashes, newHashes⟩ :=
    List.map_eq_append_iff.mp branchSplit
  have firstStored : Stored network.crypto chain.index first := fun block member =>
    tracks.stored block (List.mem_append_left _ member)
  have secondStored : Stored network.crypto chain.index second := fun block member =>
    stored block (List.mem_append_left _ member)
  obtain rfl := firstStored.ext secondStored (firstHashes.trans secondHashes.symm)
  refine ⟨first, oldBlocks, newBlocks, rfl, rfl, ?_, ?_⟩
  · rintro rfl
    exact nonempty firstHashes.symm
  · intro block member
    exact apart _ (oldHashes ▸ List.mem_map_of_mem member)

variable {common old new : List Block} {forkBlock : Block}
  (forked : Forked network.crypto main branch common old new)
  (last : common.getLast? = some forkBlock)

include forked last

theorem forkPointOf_eq (tracks : Tracks view chain main journals) :
    Chain.forkPointOf (chain.ancestors (chain.bestHash.getD zeroHash))
      (chain.ancestors newTip) = forkBlock.hash network.crypto := by
  obtain ⟨tip, mainPath⟩ := tracks.path
  have bestHash : chain.bestHash = some tip := by
    rw [Chain.bestHash, tracks.heightIndex, mainPath.getLast?]
  rw [bestHash, Option.getD_some, ancestors_eq tree tracks.head mainPath,
    ancestors_eq tree tracks.head whole, Chain.forkPointOf, forked.mainSplit, List.map_append]
  have ends : (common.map (Block.hash network.crypto)).getLast? =
      some (forkBlock.hash network.crypto) := by
    rw [List.getLast?_map, last]
    rfl
  rw [find?_reverse_append ends]
  · rfl
  · intro hash member
    obtain ⟨block, inOld, rfl⟩ := List.mem_map.mp member
    rw [List.mem_reverse]
    exact forked.apart block inOld
  · rw [List.mem_reverse, forked.branchSplit]
    exact List.mem_map_of_mem (List.mem_append_left _ (List.mem_of_getLast? last))

theorem forkHeight_eq :
    chain.blockHeights[forkBlock.hash network.crypto]? = some (common.length - 1) := by
  obtain ⟨earlier, rfl⟩ := List.getLast?_eq_some_iff.mp last
  rw [forked.branchSplit, List.append_assoc, List.map_append, List.singleton_append,
    List.map_cons] at whole
  have height := tree.height_of_path whole.of_append
  rw [List.length_append, List.length_map, List.length_singleton] at height
  rw [List.length_append, List.length_singleton]
  exact height

end Plan

section Outcome

variable {common old new : List Block} {newTipHeight : Nat} {report : ReorgReport}
  (tracks : Tracks view chain main journals)
  (tree : BlockTree network options.allowPowTestBlocks chain.index)
  (stored : Stored network.crypto chain.index branch)
  (whole : Path network.genesisHash chain.index.parent newTip
    (branch.map (Block.hash network.crypto)))
  (forked : Forked network.crypto main branch common old new)

include tracks tree stored whole forked

/-- Rolling back to the fork point leaves a chain that tracks the common part and
knows the same blocks. -/
theorem rollbackToFork (covered : old.length ≤ chain.journals.length) :
    ∃ rolled middle journals',
      Chain.rollbackBlocks network.crypto old.length ⟨[], [], []⟩ chain =
        .ok rolled middle ∧
      rolled.rolledBackBlocks.length = old.length ∧
      middle.journals.length = chain.journals.length - old.length ∧
      Tracks view middle common journals' ∧
      BlockTree network options.allowPowTestBlocks middle.index ∧
      Stored network.crypto middle.index (common ++ new) ∧
      Path network.genesisHash middle.index.parent newTip
        ((common ++ new).map (Block.hash network.crypto)) := by
  rw [forked.mainSplit] at tracks
  obtain ⟨rolled, middle, journals', ran, counted, remaining, middleTracks⟩ :=
    rollbackBlocks_tracks ⟨[], [], []⟩ tracks forked.nonempty covered
  have same : middle.index = chain.index := by
    have related := rollbackBlocks_sameIndex network old.length ⟨[], [], []⟩ chain
    rw [final_of_ok ran] at related
    exact related.index
  rw [forked.branchSplit] at stored whole
  refine ⟨rolled, middle, journals', ran, by simpa using counted, remaining,
    middleTracks, ?_, ?_, ?_⟩ <;> rwa [same]

/-- A reorganisation succeeds exactly when the fork point is a proper block, the
journals cover the blocks to roll back, and the new blocks apply. -/
theorem reorganizeToInner_eq_ok (admitted : ∀ block ∈ new, view.admits block)
    (height : newTipHeight = branch.length - 1)
    {forkBlock : Block} (last : common.getLast? = some forkBlock) :
    Chain.reorganizeToInner network newTip newTipHeight chain = .ok report after ↔
      forkBlock.hash network.crypto ≠ zeroHash ∧
      old.length ≤ chain.journals.length ∧
      ∃ rolled middle,
        Chain.rollbackBlocks network.crypto old.length ⟨[], [], []⟩ chain =
          .ok rolled middle ∧
        Chain.applyForkBlocks network common.length
          (new.map (Block.hash network.crypto)) rolled middle = .ok report after := by
  have forkPoint := forkPointOf_eq tree whole forked last tracks
  have forkHeight := forkHeight_eq tree whole forked last
  have mainLength := congrArg List.length forked.mainSplit
  rw [List.length_append] at mainLength
  have positive := List.length_pos_iff.mpr forked.nonempty
  have commonLength : common.length - 1 + 1 = common.length := by omega
  have depth : chain.bestHeight - (common.length - 1) = old.length := by
    rw [tracks.bestHeight]
    omega
  rw [Chain.reorganizeToInner, bind_eq_ok]
  constructor
  · rintro ⟨current, _, got, ran⟩
    obtain ⟨rfl, rfl⟩ := get_eq_ok.mp got
    rw [forkPoint, bind_eq_ok] at ran
    obtain ⟨_, _, rejected, ran⟩ := ran
    obtain ⟨nonzero, rfl⟩ := rejectIf_eq_ok.mp rejected
    simp only [forkHeight, depth, commonLength] at ran
    rw [bind_eq_ok] at ran
    obtain ⟨_, _, rejected, ran⟩ := ran
    obtain ⟨shallow, rfl⟩ := rejectIf_eq_ok.mp rejected
    have covered : old.length ≤ chain.journals.length := by simpa using shallow
    obtain ⟨rolled, middle, _, rolledRan, -, -, -, middleTree, -, middleWhole⟩ :=
      rollbackToFork tracks tree stored whole forked covered
    rw [bind_eq_ok] at ran
    obtain ⟨rolled', middle', rolledRan', ran⟩ := ran
    rw [rolledRan] at rolledRan'
    cases rolledRan'
    rw [bind_eq_ok] at ran
    obtain ⟨current, _, got, ran⟩ := ran
    obtain ⟨rfl, rfl⟩ := get_eq_ok.mp got
    rw [bind_eq_ok] at ran
    obtain ⟨path, _, found, ran⟩ := ran
    obtain ⟨found, rfl⟩ := ofExcept_eq_ok.mp found
    have expected := forkPathOf_eq middleTree last middleWhole
    rw [expected] at found
    cases found
    rw [bind_eq_ok] at ran
    obtain ⟨report', after', applied, ran⟩ := ran
    rw [bind_eq_ok] at ran
    obtain ⟨current, _, got, ran⟩ := ran
    obtain ⟨rfl, rfl⟩ := get_eq_ok.mp got
    rw [bind_eq_ok] at ran
    obtain ⟨_, _, rejected, ran⟩ := ran
    obtain ⟨-, rfl⟩ := rejectIf_eq_ok.mp rejected
    obtain ⟨rfl, rfl⟩ := pure_eq_ok.mp ran
    rw [List.reverse_reverse] at applied
    exact ⟨by simpa using nonzero, covered, rolled, middle, rolledRan, applied⟩
  · rintro ⟨nonzero, covered, rolled, middle, rolledRan, applied⟩
    obtain ⟨rolled', middle', _, rolledRan', -, -, middleTracks, middleTree, middleStored,
      middleWhole⟩ := rollbackToFork tracks tree stored whole forked covered
    rw [rolledRan] at rolledRan'
    cases rolledRan'
    obtain ⟨-, -, _, afterTracks⟩ := applyForkBlocks_tracks middleTracks admitted
      middleTree middleStored middleWhole applied
    have reached : after.bestHash = some newTip ∧ after.bestHeight = newTipHeight := by
      rw [afterTracks.bestHash, afterTracks.bestHeight, ← List.getLast?_map,
        middleWhole.getLast?, height, forked.branchSplit]
      exact ⟨rfl, rfl⟩
    refine ⟨chain, chain, rfl, ?_⟩
    rw [forkPoint, bind_eq_ok]
    refine ⟨(), chain, rejectIf_eq_ok.mpr ⟨by simpa using nonzero, rfl⟩, ?_⟩
    simp only [forkHeight, depth, commonLength]
    rw [bind_eq_ok]
    refine ⟨(), chain, rejectIf_eq_ok.mpr ⟨by simpa using covered, rfl⟩, ?_⟩
    rw [bind_eq_ok]
    refine ⟨rolled, middle, rolledRan, ?_⟩
    rw [bind_eq_ok]
    refine ⟨middle, middle, rfl, ?_⟩
    rw [bind_eq_ok]
    refine ⟨_, middle, ofExcept_eq_ok.mpr
      ⟨forkPathOf_eq middleTree last middleWhole, rfl⟩, ?_⟩
    rw [List.reverse_reverse, bind_eq_ok]
    refine ⟨report, after, applied, ?_⟩
    rw [bind_eq_ok]
    refine ⟨after, after, rfl, ?_⟩
    rw [bind_eq_ok]
    refine ⟨(), after, rejectIf_eq_ok.mpr ⟨?_, rfl⟩, rfl⟩
    simp [reached]

theorem reorganizeTo_eq_ok (admitted : ∀ block ∈ new, view.admits block)
    (ran : Chain.reorganizeTo network newTip (branch.length - 1) chain =
      .ok report after) :
    SameIndex chain after ∧ (∃ journals', Tracks view after branch journals') ∧
      old.length ≤ chain.journals.length ∧
      after.journals.length + old.length = chain.journals.length + new.length ∧
      report.rolledBackBlocks.length = old.length := by
  have inner : Chain.reorganizeToInner network newTip (branch.length - 1) chain =
      .ok report after := by
    unfold Chain.reorganizeTo at ran
    cases inner : Chain.reorganizeToInner network newTip (branch.length - 1) chain with
    | error error reached =>
        rw [inner] at ran
        cases ran
    | ok report reached =>
        rw [inner] at ran
        exact ran
  have same := reorganizeToInner_sameIndex network newTip (branch.length - 1) chain
  rw [final_of_ok inner] at same
  have last := List.getLast?_eq_some_getLast forked.nonempty
  obtain ⟨-, covered, rolled, middle, rolledRan, applied⟩ :=
    (reorganizeToInner_eq_ok tracks tree stored whole forked admitted rfl last).mp inner
  obtain ⟨_, _, _, rolledRan', counted, remaining, middleTracks, middleTree, middleStored,
    middleWhole⟩ := rollbackToFork tracks tree stored whole forked covered
  rw [rolledRan] at rolledRan'
  cases rolledRan'
  obtain ⟨sameReport, grown, afterTracks⟩ := applyForkBlocks_tracks middleTracks admitted
    middleTree middleStored middleWhole applied
  rw [← forked.branchSplit] at afterTracks
  exact ⟨same, afterTracks, covered, by omega, by rw [sameReport, counted]⟩

end Outcome

end Reorganise

end Vtorrent
