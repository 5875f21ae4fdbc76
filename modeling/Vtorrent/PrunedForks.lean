import Vtorrent.HeaderLineages

/-!
# Forks seen through a pruned header store

The walks that look for the previous tip and for the fork only see stored headers.  This
file compares what they return with the paths from genesis along the headers that have
ever been delivered.
-/

namespace Vtorrent

namespace Btc

open Std RootedPaths

section Walks

variable {blockHash : Header → Hash} {root : Hash} {parent : Hash → Option Hash}
  {chain : HeaderChain} {path : List Hash} {node : Hash}

variable (top : parent root = none)

include top

/-- `is_ancestor` finds a node of the path of the tip if every header above it is stored. -/
theorem isAncestorFrom_iff (faithful : Faithful blockHash root parent chain)
    (whole : Path root parent node path) {ancestor : Hash} {steps : Nat}
    (enough : path.length ≤ steps) :
    chain.isAncestorFrom ancestor steps node = true ↔ StoredAbove chain path ancestor := by
  induction whole generalizing steps with
  | root =>
      obtain ⟨steps, rfl⟩ := Nat.exists_eq_succ_of_ne_zero (Nat.ne_of_gt enough)
      obtain ⟨stored, held, height⟩ := faithful.lowest top
      rw [HeaderChain.isAncestorFrom, storedAbove_singleton]
      by_cases same : root = ancestor
      · simp [same]
      · simp [same, held, height]
  | @child node above path linked earlier ih =>
      rw [List.length_append, List.length_singleton] at enough
      obtain ⟨steps, rfl⟩ := Nat.exists_eq_succ_of_ne_zero (by omega : steps ≠ 0)
      have lower := ih (by omega : path.length ≤ steps)
      rw [HeaderChain.isAncestorFrom, storedAbove_concat]
      by_cases same : node = ancestor
      · simp [same]
      · rw [if_neg same]
        simp only [same, false_or]
        cases held : chain.headers[node]? with
        | none =>
            have absent : node ∉ chain.headers := by
              simp [ExtTreeMap.mem_iff_isSome_getElem?, held]
            simp [absent]
        | some entry =>
            obtain ⟨height, nonzero, prev⟩ := faithful.below top linked earlier held
            simp only [mem_of_getElem? held, true_and, prev, nonzero, if_false]
            split
            · rename_i early
              obtain ⟨stored, found, notAbove⟩ := (Option.any_eq_true _ _).mp early
              have limit : entry.height ≤ stored.height := by simpa using notAbove
              simp only [Bool.false_eq_true, false_iff]
              intro met
              obtain ⟨place, whole, length⟩ := faithful.placed ancestor stored found
              have order := length_le_of_mem top whole earlier met.mem
              omega
            · exact lower

variable {tip : Hash} {newPath : List Hash}

theorem isAncestor_iff (faithful : Faithful blockHash root parent chain)
    (best : chain.bestHash = some tip) (newest : Path root parent tip newPath)
    (ancestor : Hash) :
    chain.isAncestor ancestor tip = true ↔ StoredAbove chain newPath ancestor := by
  obtain ⟨stored, held, height, length⟩ := faithful.length_tip top best newest
  apply isAncestorFrom_iff top faithful newest
  rw [HeaderChain.stepsFrom, held, Option.map_some, Option.getD_some]
  omega

/-- `find_fork` stops at a header that the stored part of the best chain reaches, or at
genesis, or else at a missing header, and then returns the retained floor. -/
theorem findForkFrom_cases (faithful : Faithful blockHash root parent chain)
    (best : chain.bestHash = some tip) (newest : Path root parent tip newPath)
    (whole : Path root parent node path) {steps : Nat} (enough : path.length ≤ steps) :
    (∃ before cursor after, path = before ++ cursor :: after ∧
        (∀ other ∈ cursor :: after, other ∈ chain.headers) ∧
        chain.findForkFrom steps node = before.length ∧
        (StoredAbove chain newPath cursor ∨ before = [])) ∨
      ∃ before cursor after, path = before ++ cursor :: after ∧ cursor ∉ chain.headers ∧
        (∀ other ∈ after, ¬ StoredAbove chain newPath other) ∧
        chain.findForkFrom steps node = chain.retainedFloor := by
  induction whole generalizing steps with
  | root =>
      obtain ⟨steps, rfl⟩ := Nat.exists_eq_succ_of_ne_zero (Nat.ne_of_gt enough)
      obtain ⟨stored, held, height⟩ := faithful.lowest top
      refine .inl ⟨[], root, [], rfl, by simpa using faithful.rooted, ?_, .inr rfl⟩
      rw [HeaderChain.findForkFrom]
      simp [held, height]
  | @child node above path linked earlier ih =>
      rw [List.length_append, List.length_singleton] at enough
      obtain ⟨steps, rfl⟩ := Nat.exists_eq_succ_of_ne_zero (by omega : steps ≠ 0)
      rw [HeaderChain.findForkFrom]
      cases held : chain.headers[node]? with
      | none =>
          have absent : node ∉ chain.headers := by
            simp [ExtTreeMap.mem_iff_isSome_getElem?, held]
          exact .inr ⟨path, node, [], rfl, absent, by simp, rfl⟩
      | some entry =>
          have stored := mem_of_getElem? held
          obtain ⟨height, nonzero, prev⟩ := faithful.below top linked earlier held
          have standing := Path.child linked earlier
          have reached := head?_hashesFrom_iff top faithful best newest standing
            (by simp [height] : (path ++ [node]).length = entry.height + 1)
          simp only [stored, true_and] at reached
          simp only [nonzero, if_false, prev]
          split
          · rename_i onBest
            exact .inl ⟨path, node, [], rfl, by simpa using stored, height,
              .inl (reached.mp onBest)⟩
          · rename_i offBest
            rw [reached] at offBest
            rcases ih (by omega : path.length ≤ steps) with
              ⟨before, cursor, after, rfl, others, fork, stop⟩ |
              ⟨before, cursor, after, rfl, absent, others, fork⟩
            · refine .inl ⟨before, cursor, after ++ [node], by simp, ?_, fork, stop⟩
              intro other member
              rw [← List.cons_append, List.mem_append] at member
              rcases member with old | last
              · exact others other old
              · rwa [List.mem_singleton.mp last]
            · refine .inr ⟨before, cursor, after ++ [node], by simp, absent, ?_, fork⟩
              intro other member
              rcases List.mem_append.mp member with old | last
              · exact others other old
              · rwa [List.mem_singleton.mp last]

theorem findFork_cases (faithful : Faithful blockHash root parent chain)
    (best : chain.bestHash = some tip) (newest : Path root parent tip newPath)
    (whole : Path root parent node path) :
    (∃ before cursor after, path = before ++ cursor :: after ∧
        (∀ other ∈ cursor :: after, other ∈ chain.headers) ∧
        chain.findFork node = before.length ∧
        (StoredAbove chain newPath cursor ∨ before = [])) ∨
      ∃ before cursor after, path = before ++ cursor :: after ∧ cursor ∉ chain.headers ∧
        (∀ other ∈ after, ¬ StoredAbove chain newPath other) ∧
        chain.findFork node = chain.retainedFloor := by
  cases held : chain.headers[node]? with
  | none =>
      obtain ⟨front, rfl⟩ := List.getLast?_eq_some_iff.mp whole.getLast?
      refine .inr ⟨front, node, [], rfl, ?_, by simp, ?_⟩
      · simp [ExtTreeMap.mem_iff_isSome_getElem?, held]
      · simp [HeaderChain.findFork, HeaderChain.stepsFrom, HeaderChain.findForkFrom, held]
  | some stored =>
      have height := faithful.height top whole held
      apply findForkFrom_cases top faithful best newest whole
      simp only [HeaderChain.stepsFrom, held, Option.map_some, Option.getD_some]
      omega

end Walks

/-! ## When the walks are right -/

/-- The headers that the walks need are stored.  If the previous tip is on the new best
chain, those are the headers above it.  Otherwise the fork is within the retention window,
or the whole old chain is stored, or the fork and both branches are. -/
def Traceable (chain : HeaderChain) (common old new : List Hash) : Prop :=
  (old = [] → ∀ hash ∈ new, hash ∈ chain.headers) ∧
    (old ≠ [] → chain.retainedFloor < common.length ∨
      (∀ hash ∈ common ++ old, hash ∈ chain.headers) ∨
      ∀ hash ∈ common.getLast?.toList ++ old ++ new, hash ∈ chain.headers)

/-- The reorganisation path is taken exactly when the previous tip is off the best chain,
and the fork it resumes from is at a height that the two chains share. -/
def FollowsFork (chain : HeaderChain) (previous : Hash) (common new : List Hash) : Prop :=
  (chain.reorganisation (some previous) = none ↔ previous ∈ common ++ new) ∧
    ∀ fork, chain.reorganisation (some previous) = some fork → fork < common.length

section Decision

variable {blockHash : Header → Hash} {root : Hash} {parent : Hash → Option Hash}
  {chain : HeaderChain} {previous tip : Hash} {common old new : List Hash}

theorem append_cons_cases {before after : List Hash} {cursor : Hash}
    (split : common ++ old = before ++ cursor :: after) :
    cursor ∈ old ∨ ∃ between, common = before ++ cursor :: between ∧ after = between ++ old := by
  rcases List.append_eq_append_iff.mp split with ⟨rest, front, back⟩ | ⟨rest, front, back⟩
  · exact .inl (by simp [back])
  · cases rest with
    | nil => exact .inl (by simp only [List.nil_append] at back; simp [← back])
    | cons first rest =>
        rw [List.cons_append, List.cons.injEq] at back
        obtain ⟨rfl, rfl⟩ := back
        exact .inr ⟨rest, front, rfl⟩

theorem reorganisation_eq (best : chain.bestHash = some tip) :
    chain.reorganisation (some previous) =
      if chain.isAncestor previous tip then none else some (chain.findFork previous) := by
  simp only [HeaderChain.reorganisation, best]
  by_cases same : tip = previous
  · subst same
    simp [HeaderChain.isAncestor, HeaderChain.stepsFrom, HeaderChain.isAncestorFrom]
  · cases chain.isAncestor previous tip <;> simp [same]

variable (top : parent root = none) (faithful : Faithful blockHash root parent chain)
  (best : chain.bestHash = some tip) (newest : Path root parent tip (common ++ new))
  (oldest : Path root parent previous (common ++ old))

include top faithful best newest oldest

theorem isAncestor_of_extended (extended : old = []) :
    chain.isAncestor previous tip = true ↔ ∀ hash ∈ new, hash ∈ chain.headers := by
  subst extended
  rw [isAncestor_iff top faithful best newest]
  rw [List.append_nil] at oldest
  obtain ⟨front, rfl⟩ := List.getLast?_eq_some_iff.mp oldest.getLast?
  constructor
  · rintro ⟨before, after, split, stored⟩
    rw [split] at newest
    have same := oldest.unique top newest.of_append
    rw [List.append_cancel_right_eq] at same
    subst same
    rw [List.append_assoc, List.append_cancel_left_eq] at split
    obtain ⟨-, rfl⟩ := List.cons.inj split
    exact stored
  · intro stored
    exact ⟨front, new, by simp, stored⟩

/-- The fork that is found is a shared header, unless the headers it takes are missing. -/
theorem findFork_lt_iff (nonempty : common ≠ []) (apart : ∀ hash ∈ old, hash ∉ common ++ new) :
    chain.findFork previous < common.length ↔ chain.retainedFloor < common.length ∨
      (∀ hash ∈ common ++ old, hash ∈ chain.headers) ∨
      ∀ hash ∈ common.getLast?.toList ++ old ++ new, hash ∈ chain.headers := by
  have positive := List.length_pos_iff.mpr nonempty
  rcases findFork_cases top faithful best newest oldest with
    ⟨before, cursor, after, split, stored, fork, met | bottom⟩ |
    ⟨before, cursor, after, split, absent, offBest, fork⟩
  · rcases append_cons_cases split with onOld | ⟨between, rfl, rfl⟩
    · exact absurd met.mem (apart cursor onOld)
    · have whole : ∀ hash ∈ (before ++ cursor :: between).getLast?.toList ++ old ++ new,
          hash ∈ chain.headers := by
        obtain ⟨before', after', place, others⟩ := met
        have standing := newest
        rw [List.append_assoc, List.cons_append] at standing
        rw [place] at newest
        have same := standing.of_append.unique top newest.of_append
        rw [List.append_cancel_right_eq] at same
        subst same
        rw [List.append_assoc, List.append_cancel_left_eq, List.cons_append,
          List.cons.injEq] at place
        obtain ⟨-, rfl⟩ := place
        intro hash member
        rw [List.append_assoc, List.mem_append, List.mem_append] at member
        rcases member with last | onOld | onNew
        · rw [List.getLast?_append_of_ne_nil _ (by simp), Option.mem_toList] at last
          have behind := List.mem_of_getLast? last
          exact stored hash (by
            rw [← List.cons_append]
            exact List.mem_append_left _ behind)
        · exact stored hash (by simp [onOld])
        · exact others hash (by simp [onNew])
      rw [fork]
      simp only [List.length_append, List.length_cons]
      exact ⟨fun _ => .inr (.inr whole), fun _ => by omega⟩
  · subst bottom
    rw [fork, List.length_nil]
    rw [List.nil_append] at split
    exact ⟨fun _ => .inr (.inl (by rw [split]; exact stored)), fun _ => positive⟩
  · rw [fork]
    constructor
    · exact .inl
    · rintro (within | whole | branches)
      · exact within
      · exact absurd (whole cursor (by simp [split])) absent
      · exfalso
        rcases append_cons_cases split with onOld | ⟨between, rfl, rfl⟩
        · exact absent (branches cursor (by simp [onOld]))
        · rcases List.eq_nil_or_concat' between with rfl | ⟨between, fork, rfl⟩
          · exact absent (branches cursor (by simp))
          · refine offBest fork (by simp) ⟨before ++ cursor :: between, new, by simp, ?_⟩
            exact fun hash member => branches hash (by simp [member])

/-- The decision and the fork are right exactly when the headers they take are stored. -/
theorem followsFork_iff (nonempty : common ≠ [])
    (apart : ∀ hash ∈ old, hash ∉ common ++ new) :
    FollowsFork chain previous common new ↔ Traceable chain common old new := by
  rw [FollowsFork, reorganisation_eq best]
  by_cases extended : old = []
  · have decision := isAncestor_of_extended top faithful best newest oldest extended
    subst extended
    rw [List.append_nil] at oldest
    have member : previous ∈ common ++ new :=
      List.mem_append_left _ (List.mem_of_getLast? oldest.getLast?)
    simp only [Traceable, forall_const, ne_eq, not_true_eq_false, IsEmpty.forall_iff, and_true,
      ← decision, member, iff_true]
    split
    · rename_i found
      simp [found]
    · rename_i missed
      simp [missed]
  · have last : previous ∈ old := by
      have ends := oldest.getLast?
      rw [List.getLast?_append_of_ne_nil _ extended] at ends
      exact List.mem_of_getLast? ends
    have off : previous ∉ common ++ new := apart previous last
    have missed : ¬ chain.isAncestor previous tip = true := by
      rw [isAncestor_iff top faithful best newest]
      exact fun met => off met.mem
    rw [if_neg missed]
    simp only [reduceCtorEq, off, iff_self, true_and, Option.some_inj, forall_eq', Traceable,
      extended, false_imp_iff, ne_eq, not_false_eq_true, forall_const]
    exact findFork_lt_iff top faithful best newest oldest nonempty apart

end Decision

/-! ## Every pass of every wallet -/

section Passes

variable {rules : HeaderRules} {delivered : List Header}

theorem Faithful.addBatch (distinct : NoCollision rules delivered) {batch : List Header}
    {state after : Nat × HeaderChain} (faithful : FaithfulTo rules delivered state.2)
    (members : ∀ header ∈ batch, header ∈ delivered)
    (added : HeaderChain.addBatch rules batch state = .ok after) :
    FaithfulTo rules delivered after.2 := by
  induction batch generalizing state with
  | nil =>
      cases added
      exact faithful
  | cons header batch ih =>
      obtain ⟨count, chain⟩ := state
      have others : ∀ header ∈ batch, header ∈ delivered :=
        fun header member => members header (List.mem_cons_of_mem _ member)
      rw [HeaderChain.addBatch] at added
      split at added
      · exact ih faithful others added
      · split at added
        · cases added
        · split at added
          · split at added
            · cases added
            · rename_i parent _ _ _ next step
              exact ih (faithful.addHeader distinct (members header (by simp)) step) others added
          · cases added

theorem Faithful.syncHeaders (distinct : NoCollision rules delivered) {failure : BtcError}
    {batches : List (List Header)} {state after : Nat × HeaderChain}
    (faithful : FaithfulTo rules delivered state.2)
    (members : ∀ header ∈ batches.flatten, header ∈ delivered)
    (synced : HeaderChain.syncHeaders rules failure batches state = .ok after) :
    FaithfulTo rules delivered after.2 := by
  induction batches generalizing state with
  | nil => cases synced
  | cons batch batches ih =>
      rw [List.flatten_cons] at members
      rw [HeaderChain.syncHeaders] at synced
      split at synced
      · cases synced
      · rename_i next step
        have kept := faithful.addBatch distinct
          (fun header member => members header (List.mem_append_left _ member)) step
        split at synced
        · cases synced
          exact kept
        · split at synced
          · cases synced
          · exact ih kept (fun header member => members header (List.mem_append_right _ member))
              synced

theorem Faithful.sync (distinct : NoCollision rules delivered) {peer : PeerAnswers}
    {saveReset saveFork : Except String Unit} {state after : SyncedWallet} {added : Nat}
    (faithful : FaithfulTo rules delivered state.headers)
    (members : ∀ header ∈ peer.batches.flatten, header ∈ delivered)
    (synced : state.sync rules peer saveReset saveFork = .ok (added, after)) :
    FaithfulTo rules delivered after.headers := by
  simp only [SyncedWallet.sync, Checked.bind_eq_ok, Checked.pure_eq_ok, Prod.mk.injEq] at synced
  obtain ⟨next, pass, rfl, rfl⟩ := synced
  exact faithful.syncHeaders distinct members pass

theorem Faithful.performEvents (distinct : NoCollision rules delivered)
    {events : List HeaderEvent} {state : SyncedWallet}
    (faithful : FaithfulTo rules delivered state.headers)
    (members : ∀ header ∈ events.flatMap HeaderEvent.delivered, header ∈ delivered) :
    FaithfulTo rules delivered (state.performAll rules events).headers := by
  induction events generalizing state with
  | nil => exact faithful
  | cons event events ih =>
      rw [List.flatMap_cons] at members
      refine ih ?_ fun header member => members header (List.mem_append_right _ member)
      cases event with
      | setHeaderRetention retention => exact faithful.setRetention retention
      | sync peer saveReset saveFork =>
          unfold HeaderEvent.perform
          dsimp only
          split
          · rename_i synced
            exact faithful.sync distinct
              (fun header member => members header (List.mem_append_left _ member)) synced
          · exact faithful

end Passes

/-- A pass on a wallet with any history takes the reorganisation path exactly when the
previous tip is off the new best chain, and resumes from a height that the two chains share,
if and only if the headers that the walks need are stored. -/
theorem sync_follows_fork_iff (rules : HeaderRules) (wallet : BtcWallet) (resetOnSync : Bool)
    (events : List HeaderEvent) (peer : PeerAnswers) (saveReset saveFork : Except String Unit)
    (added : Nat) (after : SyncedWallet)
    (distinct : NoCollision rules
      (events.flatMap HeaderEvent.delivered ++ peer.batches.flatten))
    (synced : ((SyncedWallet.mk (.anchored rules) wallet resetOnSync).performAll rules
      events).sync rules peer saveReset saveFork = .ok (added, after)) :
    let before := (SyncedWallet.mk (.anchored rules) wallet resetOnSync).performAll rules events
    let parent := parentAmong rules
      (events.flatMap HeaderEvent.delivered ++ peer.batches.flatten)
    ∃ previous tip common old new,
      before.headers.bestHash = some previous ∧ after.headers.bestHash = some tip ∧
      Path rules.genesisHash parent previous (common ++ old) ∧
      Path rules.genesisHash parent tip (common ++ new) ∧
      common ≠ [] ∧ (∀ hash ∈ old, hash ∉ common ++ new) ∧
      (FollowsFork after.headers previous common new ↔
        Traceable after.headers common old new) := by
  intro before parent
  have top : parent rules.genesisHash = none := parentAmong_genesis rules _
  have start : FaithfulTo rules (events.flatMap HeaderEvent.delivered ++ peer.batches.flatten)
      before.headers :=
    Faithful.performEvents distinct (faithful_anchored rules _)
      fun header member => List.mem_append_left _ member
  have faithful := start.sync distinct
    (fun header member => List.mem_append_right _ member) synced
  obtain ⟨previous, oldPath, previousBest, oldest⟩ := start.path_tip
  obtain ⟨tip, newPath, best, newest⟩ := faithful.path_tip
  obtain ⟨common, old, new, rfl, rfl, nonempty, apart⟩ := oldest.fork top newest
  exact ⟨previous, tip, common, old, new, previousBest, best, oldest, newest, nonempty, apart,
    followsFork_iff top faithful best newest oldest nonempty apart⟩

namespace HeaderSample

def wallet : BtcWallet := ⟨.new, none, 0, false, none, false⟩

def branch (first length : Nat) : List Header :=
  (List.range length).map fun index =>
    header (first + index) (if index = 0 then 0 else first + index - 1) easyBits 0

/-- A pass over five headers, after which three are kept. -/
def shortened : List HeaderEvent :=
  [.sync ⟨[branch 1 5], .notSynced⟩ (.ok ()) (.ok ()), .setHeaderRetention 2]

def rival : PeerAnswers := ⟨[branch 11 6], .notSynced⟩

def before : SyncedWallet :=
  (SyncedWallet.mk (.anchored rules) wallet false).performAll rules shortened

def rivalHeaders : Option HeaderChain :=
  match before.sync rules rival (.ok ()) (.ok ()) with
  | .ok (_, after) => some after.headers
  | .error _ => none

def all : List Header := shortened.flatMap HeaderEvent.delivered ++ rival.batches.flatten

def oldLabels : List Hash := [1, 2, 3, 4, 5].map label

def newLabels : List Hash := [11, 12, 13, 14, 15, 16].map label

theorem rival_replaces :
    before.headers.bestHash = some (label 5) ∧
    rivalHeaders.map (fun chain => (chain.bestHash, chain.reorganisation (some (label 5)))) =
      some (some (label 16), some 4) ∧
    NoCollision rules all ∧
    ((label 0 :: oldLabels).IsChain fun above below => parentAmong rules all below = some above) ∧
    ((label 0 :: newLabels).IsChain fun above below => parentAmong rules all below = some above) ∧
    oldLabels.all (fun hash => !(label 0 :: newLabels).contains hash) = true := by
  decide +kernel

theorem sync_rival : ∃ added after,
    before.sync rules rival (.ok ()) (.ok ()) = .ok (added, after) ∧
      rivalHeaders = some after.headers := by
  have facts := rival_replaces.2.1
  unfold rivalHeaders at facts ⊢
  cases synced : before.sync rules rival (.ok ()) (.ok ()) with
  | error error =>
      rw [synced] at facts
      cases facts
  | ok result => exact ⟨result.1, result.2, rfl, rfl⟩

end HeaderSample

open HeaderSample in
theorem sync_follows_fork_of_rival :
    ∃ added after, before.sync rules rival (.ok ()) (.ok ()) = .ok (added, after) ∧
      ∃ previous tip common old new, before.headers.bestHash = some previous ∧
        after.headers.bestHash = some tip ∧
        Path rules.genesisHash (parentAmong rules all) previous (common ++ old) ∧
        Path rules.genesisHash (parentAmong rules all) tip (common ++ new) ∧
        common ≠ [] ∧ (∀ hash ∈ old, hash ∉ common ++ new) ∧
        (FollowsFork after.headers previous common new ↔
          Traceable after.headers common old new) := by
  obtain ⟨added, after, synced, -⟩ := sync_rival
  exact ⟨added, after, synced, sync_follows_fork_iff rules wallet false shortened rival (.ok ())
    (.ok ()) added after rival_replaces.2.2.1 synced⟩

open HeaderSample in
/-- A branch of six headers from genesis replaces one of five, of which three are stored:
only genesis is shared, and the pass resumes above height four. -/
theorem fork_above_shared_header :
    ∃ added after, before.sync rules rival (.ok ()) (.ok ()) = .ok (added, after) ∧
      before.headers.bestHash = some (label 5) ∧ after.headers.bestHash = some (label 16) ∧
      Path rules.genesisHash (parentAmong rules all) (label 5) (label 0 :: oldLabels) ∧
      Path rules.genesisHash (parentAmong rules all) (label 16) (label 0 :: newLabels) ∧
      (∀ hash ∈ oldLabels, hash ∉ label 0 :: newLabels) ∧
      after.headers.reorganisation (some (label 5)) = some 4 := by
  obtain ⟨added, after, synced, headers⟩ := sync_rival
  obtain ⟨previous, result, -, oldLinks, newLinks, apart⟩ := rival_replaces
  rw [headers, Option.map_some, Option.some_inj, Prod.mk.injEq] at result
  have apart : ∀ hash ∈ oldLabels, hash ∉ label 0 :: newLabels := by simpa using apart
  exact ⟨added, after, synced, previous, result.1, Path.of_isChain oldLinks rfl,
    Path.of_isChain newLinks rfl, apart, result.2⟩

end Btc

end Vtorrent
