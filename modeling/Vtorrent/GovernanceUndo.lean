import Vtorrent.FiniteMapTotals
import Vtorrent.KeyedUpdates
import Vtorrent.Governance

/-!
# Undoing the governance changes of a block

The undo record is a difference between the states after and before a block.
Restoring it gives back the state before, whatever the block did: the record
mentions each proposal and each lock at most once, and what it says about a
key does not depend on the other keys.
-/

namespace Vtorrent

open Std

inductive ProposalUndo where
  | added (id : ProposalId)
  | removed (id : ProposalId) (record : ProposalRecord)
  | updated (id : ProposalId) (metadata : ProposalRecord)
      (addedVotes removedVotes : List OutPoint)
  deriving DecidableEq

/-- What is needed to restore the governance state a block started from. -/
structure GovernanceUndo where
  proposals : List ProposalUndo
  locks : List (OutPoint × Option VoteLock)
  deriving DecidableEq

def proposalMetadata (record : ProposalRecord) : ProposalRecord :=
  { record with votedOutpoints := ∅ }

def votesDifference (first second : ExtTreeSet OutPoint) : List OutPoint :=
  first.toList.filter fun vote => !second.contains vote

namespace GovernanceState

def proposalSince (before : GovernanceState)
    (entry : ProposalId × ProposalRecord) : Option ProposalUndo :=
  match before.proposals[entry.1]? with
  | none => some (.added entry.1)
  | some old =>
      if old ≠ entry.2 then
        some (.updated entry.1 (proposalMetadata old)
          (votesDifference entry.2.votedOutpoints old.votedOutpoints)
          (votesDifference old.votedOutpoints entry.2.votedOutpoints))
      else none

def proposalLost (state : GovernanceState)
    (entry : ProposalId × ProposalRecord) : Option ProposalUndo :=
  if state.proposals.contains entry.1 then none
  else some (.removed entry.1 entry.2)

def lockChanged (state : GovernanceState) (entry : OutPoint × VoteLock) :
    Option (OutPoint × Option VoteLock) :=
  if state.lockedUtxos[entry.1]? ≠ some entry.2 then some (entry.1, some entry.2)
  else none

def lockAdded (before : GovernanceState) (key : OutPoint) :
    Option (OutPoint × Option VoteLock) :=
  if before.lockedUtxos.contains key then none else some (key, none)

def undoSince (state before : GovernanceState) : GovernanceUndo where
  proposals :=
    state.proposals.toList.filterMap (proposalSince before) ++
      before.proposals.toList.filterMap (proposalLost state)
  locks :=
    before.lockedUtxos.toList.filterMap (lockChanged state) ++
      state.lockedUtxos.keys.filterMap (lockAdded before)

def restoreRecord (metadata : ProposalRecord) (addedVotes removedVotes : List OutPoint)
    (record : ProposalRecord) : ProposalRecord :=
  { metadata with
    votedOutpoints :=
      (addedVotes.foldl (fun votes vote => votes.erase vote)
        record.votedOutpoints).insertMany removedVotes }

def restoreProposal (proposals : ExtTreeMap ProposalId ProposalRecord) :
    ProposalUndo → ExtTreeMap ProposalId ProposalRecord
  | .added id => proposals.erase id
  | .removed id record => proposals.insert id record
  | .updated id metadata addedVotes removedVotes =>
      match proposals[id]? with
      | some record =>
          proposals.insert id (restoreRecord metadata addedVotes removedVotes record)
      | none => proposals

def restoreLock (locks : ExtTreeMap OutPoint VoteLock) :
    OutPoint × Option VoteLock → ExtTreeMap OutPoint VoteLock
  | (key, some lock) => locks.insert key lock
  | (key, none) => locks.erase key

def restoreUndo (state : GovernanceState) (undo : GovernanceUndo) : GovernanceState where
  proposals := undo.proposals.reverse.foldl restoreProposal state.proposals
  lockedUtxos := undo.locks.reverse.foldl restoreLock state.lockedUtxos

end GovernanceState

def ProposalUndo.id : ProposalUndo → ProposalId
  | .added id => id
  | .removed id _ => id
  | .updated id _ _ _ => id

def ProposalUndo.act : ProposalUndo → Option ProposalRecord → Option ProposalRecord
  | .added _, _ => none
  | .removed _ record, _ => some record
  | .updated _ metadata addedVotes removedVotes, current =>
      current.map (GovernanceState.restoreRecord metadata addedVotes removedVotes)

namespace GovernanceState

theorem restoreProposal_touches :
    KeyedUpdates.TouchesKey restoreProposal ProposalUndo.id ProposalUndo.act where
  lookup proposals change other := by
    cases change with
    | added id =>
        simp only [restoreProposal, ProposalUndo.id, ProposalUndo.act,
          ExtTreeMap.getElem?_erase]
        by_cases same : id = other <;> simp [same]
    | removed id record =>
        simp only [restoreProposal, ProposalUndo.id, ProposalUndo.act,
          ExtTreeMap.getElem?_insert]
        by_cases same : id = other <;> simp [same]
    | updated id metadata addedVotes removedVotes =>
        simp only [restoreProposal, ProposalUndo.id, ProposalUndo.act]
        by_cases same : id = other
        · subst same
          cases held : proposals[id]? with
          | none => simp [held]
          | some record => simp
        · cases held : proposals[id]? with
          | none => simp [same]
          | some record => simp [same, ExtTreeMap.getElem?_insert]

theorem restoreLock_touches :
    KeyedUpdates.TouchesKey restoreLock Prod.fst fun change _ => change.2 where
  lookup locks change other := by
    obtain ⟨key, lock⟩ := change
    cases lock with
    | none => simp [restoreLock, ExtTreeMap.getElem?_erase]
    | some lock => simp [restoreLock, ExtTreeMap.getElem?_insert]

theorem contains_foldl_erase (votes : ExtTreeSet OutPoint) (erased : List OutPoint)
    (vote : OutPoint) :
    vote ∈ erased.foldl (fun votes vote => votes.erase vote) votes ↔
      vote ∈ votes ∧ vote ∉ erased := by
  induction erased generalizing votes with
  | nil => simp
  | cons first erased ih =>
      rw [List.foldl_cons, ih, ExtTreeSet.mem_erase, List.mem_cons]
      simp only [ne_eq, LawfulEqOrd.compare_eq_iff_eq]
      constructor
      · rintro ⟨⟨different, held⟩, absent⟩
        exact ⟨held, fun member => member.elim (fun same => different same.symm) absent⟩
      · rintro ⟨held, absent⟩
        exact ⟨⟨fun same => absent (.inl same.symm), held⟩,
          fun member => absent (.inr member)⟩

theorem mem_votesDifference {first second : ExtTreeSet OutPoint} {vote : OutPoint} :
    vote ∈ votesDifference first second ↔ vote ∈ first ∧ vote ∉ second := by
  rw [votesDifference, List.mem_filter, ExtTreeSet.mem_toList, Bool.not_eq_true',
    ← Bool.not_eq_true, ← ExtTreeSet.mem_iff_contains]

theorem restoreRecord_difference (old record : ProposalRecord) :
    restoreRecord (proposalMetadata old)
      (votesDifference record.votedOutpoints old.votedOutpoints)
      (votesDifference old.votedOutpoints record.votedOutpoints) record = old := by
  have votes : (((votesDifference record.votedOutpoints old.votedOutpoints).foldl
      (fun votes vote => votes.erase vote) record.votedOutpoints).insertMany
        (votesDifference old.votedOutpoints record.votedOutpoints)) =
      old.votedOutpoints := by
    apply ExtTreeSet.ext_mem
    intro vote
    rw [ExtTreeSet.mem_insertMany_list, contains_foldl_erase, mem_votesDifference,
      List.contains_iff_mem, mem_votesDifference]
    tauto
  simp [restoreRecord, proposalMetadata, votes]

theorem id_of_proposalSince {before : GovernanceState}
    {entry : ProposalId × ProposalRecord} {change : ProposalUndo}
    (made : proposalSince before entry = some change) : change.id = entry.1 := by
  unfold proposalSince at made
  split at made
  · cases made
    rfl
  · split at made
    · cases made
      rfl
    · cases made

theorem id_of_proposalLost {state : GovernanceState}
    {entry : ProposalId × ProposalRecord} {change : ProposalUndo}
    (made : proposalLost state entry = some change) :
    change.id = entry.1 ∧ entry.1 ∉ state.proposals := by
  unfold proposalLost at made
  split at made
  · cases made
  · rename_i absent
    cases made
    exact ⟨rfl, fun held => absent (ExtTreeMap.mem_iff_contains.mp held)⟩

theorem key_of_lockChanged {state : GovernanceState} {entry : OutPoint × VoteLock}
    {change : OutPoint × Option VoteLock}
    (made : lockChanged state entry = some change) : change.1 = entry.1 := by
  unfold lockChanged at made
  split at made
  · cases made
    rfl
  · cases made

theorem key_of_lockAdded {before : GovernanceState} {key : OutPoint}
    {change : OutPoint × Option VoteLock}
    (made : lockAdded before key = some change) :
    change.1 = key ∧ key ∉ before.lockedUtxos := by
  unfold lockAdded at made
  split at made
  · cases made
  · rename_i absent
    cases made
    exact ⟨rfl, fun held => absent (ExtTreeMap.mem_iff_contains.mp held)⟩

theorem proposalUndo_distinct (state before : GovernanceState) :
    ((undoSince state before).proposals.map ProposalUndo.id).Nodup := by
  apply KeyedUpdates.nodup_keys_append (fun _ _ => id_of_proposalSince)
  · intro entry change made
    rw [ExtTreeMap.map_fst_toList_eq_keys, ExtTreeMap.mem_keys]
    exact id_of_proposalLost made
  · rw [ExtTreeMap.map_fst_toList_eq_keys]
    exact state.proposals.nodup_keys
  · rw [ExtTreeMap.map_fst_toList_eq_keys]
    exact before.proposals.nodup_keys

theorem lockUndo_distinct (state before : GovernanceState) :
    ((undoSince state before).locks.map Prod.fst).Nodup := by
  apply KeyedUpdates.nodup_keys_append (fun _ _ => key_of_lockChanged)
  · intro key change made
    rw [ExtTreeMap.map_fst_toList_eq_keys, ExtTreeMap.mem_keys]
    exact key_of_lockAdded made
  · rw [ExtTreeMap.map_fst_toList_eq_keys]
    exact before.lockedUtxos.nodup_keys
  · rw [List.map_id']
    exact state.lockedUtxos.nodup_keys

theorem proposalSince_mem_undoSince {state before : GovernanceState} {id : ProposalId}
    {record : ProposalRecord} {change : ProposalUndo}
    (held : state.proposals[id]? = some record)
    (made : proposalSince before (id, record) = some change) :
    change ∈ (undoSince state before).proposals :=
  List.mem_append_left _ (List.mem_filterMap.mpr
    ⟨(id, record), ExtTreeMap.mem_toList_iff_getElem?_eq_some.mpr held, made⟩)

theorem mentioned_of_mem_undoSince {state before : GovernanceState} {id : ProposalId}
    (mentioned : id ∈ (undoSince state before).proposals.map ProposalUndo.id) :
    (∃ record change, state.proposals[id]? = some record ∧
      proposalSince before (id, record) = some change) ∨
    (state.proposals[id]? = none ∧ before.proposals[id]? ≠ none) := by
  obtain ⟨change, member, rfl⟩ := List.mem_map.mp mentioned
  rcases List.mem_append.mp member with inSince | inLost
  · obtain ⟨⟨id, record⟩, inState, made⟩ := List.mem_filterMap.mp inSince
    rw [id_of_proposalSince made]
    exact .inl ⟨record, change,
      ExtTreeMap.mem_toList_iff_getElem?_eq_some.mp inState, made⟩
  · obtain ⟨⟨id, old⟩, inBefore, made⟩ := List.mem_filterMap.mp inLost
    obtain ⟨sameId, gone⟩ := id_of_proposalLost made
    rw [sameId, ExtTreeMap.mem_toList_iff_getElem?_eq_some.mp inBefore]
    exact .inr ⟨ExtTreeMap.getElem?_eq_none gone, by simp⟩

theorem proposalUndo_reaches (state before : GovernanceState) (id : ProposalId) :
    (∃ change ∈ (undoSince state before).proposals, change.id = id ∧
      change.act state.proposals[id]? = before.proposals[id]?) ∨
    (id ∉ (undoSince state before).proposals.map ProposalUndo.id ∧
      state.proposals[id]? = before.proposals[id]?) := by
  cases held : state.proposals[id]? with
  | none =>
      cases heldBefore : before.proposals[id]? with
      | none =>
          refine .inr ⟨fun mentioned => ?_, rfl⟩
          rcases mentioned_of_mem_undoSince mentioned with ⟨_, _, present, _⟩ | ⟨_, present⟩
          · simp [held] at present
          · exact present heldBefore
      | some old =>
          have absent : state.proposals.contains id = false := by
            rw [ExtTreeMap.contains_eq_isSome_getElem?, held]
            rfl
          refine .inl ⟨.removed id old, ?_, rfl, rfl⟩
          refine List.mem_append_right _ (List.mem_filterMap.mpr ⟨(id, old), ?_, ?_⟩)
          · exact ExtTreeMap.mem_toList_iff_getElem?_eq_some.mpr heldBefore
          · simp [proposalLost, absent]
  | some record =>
      cases heldBefore : before.proposals[id]? with
      | none =>
          exact .inl ⟨.added id,
            proposalSince_mem_undoSince held (by simp [proposalSince, heldBefore]),
            rfl, rfl⟩
      | some old =>
          by_cases same : old = record
          · refine .inr ⟨fun mentioned => ?_, by rw [same]⟩
            rcases mentioned_of_mem_undoSince mentioned with
              ⟨other, change, present, made⟩ | ⟨absent, _⟩
            · rw [held] at present
              cases present
              simp [proposalSince, heldBefore, same] at made
            · simp [held] at absent
          · refine .inl ⟨.updated id (proposalMetadata old)
              (votesDifference record.votedOutpoints old.votedOutpoints)
              (votesDifference old.votedOutpoints record.votedOutpoints),
              proposalSince_mem_undoSince held ?_, rfl,
              congrArg some (restoreRecord_difference old record)⟩
            simp [proposalSince, heldBefore, same]

theorem lockUndo_reaches (state before : GovernanceState) (key : OutPoint) :
    (∃ change ∈ (undoSince state before).locks, change.1 = key ∧
      change.2 = before.lockedUtxos[key]?) ∨
    (key ∉ (undoSince state before).locks.map Prod.fst ∧
      state.lockedUtxos[key]? = before.lockedUtxos[key]?) := by
  by_cases same : state.lockedUtxos[key]? = before.lockedUtxos[key]?
  · refine .inr ⟨fun mentioned => ?_, same⟩
    obtain ⟨change, member, rfl⟩ := List.mem_map.mp mentioned
    rcases List.mem_append.mp member with inChanged | inAdded
    · obtain ⟨⟨key, lock⟩, inBefore, made⟩ := List.mem_filterMap.mp inChanged
      rw [key_of_lockChanged made,
        ExtTreeMap.mem_toList_iff_getElem?_eq_some.mp inBefore] at same
      simp [lockChanged, same] at made
    · obtain ⟨key, inState, made⟩ := List.mem_filterMap.mp inAdded
      obtain ⟨sameKey, absent⟩ := key_of_lockAdded made
      rw [sameKey, ExtTreeMap.getElem?_eq_none absent] at same
      have held := ExtTreeMap.mem_iff_isSome_getElem?.mp (ExtTreeMap.mem_keys.mp inState)
      simp [same] at held
  · cases heldBefore : before.lockedUtxos[key]? with
    | none =>
        rw [heldBefore] at same
        have absent : before.lockedUtxos.contains key = false := by
          rw [ExtTreeMap.contains_eq_isSome_getElem?, heldBefore]
          rfl
        refine .inl ⟨(key, none), ?_, rfl, rfl⟩
        refine List.mem_append_right _ (List.mem_filterMap.mpr ⟨key, ?_, ?_⟩)
        · rw [ExtTreeMap.mem_keys]
          by_contra missing
          exact same (ExtTreeMap.getElem?_eq_none missing)
        · simp [lockAdded, absent]
    | some lock =>
        rw [heldBefore] at same
        refine .inl ⟨(key, some lock), ?_, rfl, rfl⟩
        refine List.mem_append_left _ (List.mem_filterMap.mpr ⟨(key, lock), ?_, ?_⟩)
        · exact ExtTreeMap.mem_toList_iff_getElem?_eq_some.mpr heldBefore
        · simp [lockChanged, same]

theorem restoreUndo_undoSince (state before : GovernanceState) :
    state.restoreUndo (state.undoSince before) = before := by
  have proposals : (state.restoreUndo (state.undoSince before)).proposals =
      before.proposals := by
    apply KeyedUpdates.foldl_eq restoreProposal_touches
    · rw [List.map_reverse]
      exact List.nodup_reverse.mpr (proposalUndo_distinct state before)
    · simpa using proposalUndo_reaches state before
  have locks : (state.restoreUndo (state.undoSince before)).lockedUtxos =
      before.lockedUtxos := by
    apply KeyedUpdates.foldl_eq restoreLock_touches
    · rw [List.map_reverse]
      exact List.nodup_reverse.mpr (lockUndo_distinct state before)
    · simpa using lockUndo_reaches state before
  exact GovernanceState.ext proposals locks

/-- One entry of the undo record; restoring aborts when the record to update is missing. -/
def restoreProposal? (proposals : ExtTreeMap ProposalId ProposalRecord) :
    ProposalUndo → Option (ExtTreeMap ProposalId ProposalRecord)
  | .added id => some (proposals.erase id)
  | .removed id record => some (proposals.insert id record)
  | .updated id metadata addedVotes removedVotes => do
      let record ← proposals[id]?
      pure (proposals.insert id (restoreRecord metadata addedVotes removedVotes record))

/-- Restore a transition from its undo record, unless that aborts. -/
def restoreUndo? (state : GovernanceState) (undo : GovernanceUndo) :
    Option GovernanceState := do
  let proposals ← undo.proposals.reverse.foldlM restoreProposal? state.proposals
  pure ⟨proposals, undo.locks.reverse.foldl restoreLock state.lockedUtxos⟩

def Applies (proposals : ExtTreeMap ProposalId ProposalRecord) : ProposalUndo → Prop
  | .updated id _ _ _ => proposals[id]? ≠ none
  | _ => True

theorem restoreProposal?_eq_some {proposals : ExtTreeMap ProposalId ProposalRecord}
    {change : ProposalUndo} (applies : Applies proposals change) :
    restoreProposal? proposals change = some (restoreProposal proposals change) := by
  cases change with
  | added id => rfl
  | removed id record => rfl
  | updated id metadata addedVotes removedVotes =>
      obtain ⟨record, held⟩ := Option.ne_none_iff_exists'.mp applies
      simp [restoreProposal?, restoreProposal, held]

theorem Applies.after {proposals : ExtTreeMap ProposalId ProposalRecord}
    {change other : ProposalUndo} (applies : Applies proposals other)
    (different : change.id ≠ other.id) :
    Applies (restoreProposal proposals change) other := by
  cases other with
  | added id => trivial
  | removed id record => trivial
  | updated id metadata addedVotes removedVotes =>
      have elsewhere : change.id ≠ id := different
      rw [Applies, restoreProposal_touches.lookup, if_neg elsewhere]
      exact applies

theorem foldlM_restoreProposal? {changes : List ProposalUndo}
    (distinct : (changes.map ProposalUndo.id).Nodup)
    (proposals : ExtTreeMap ProposalId ProposalRecord)
    (apply : ∀ change ∈ changes, Applies proposals change) :
    changes.foldlM restoreProposal? proposals =
      some (changes.foldl restoreProposal proposals) := by
  induction changes generalizing proposals with
  | nil => rfl
  | cons change changes ih =>
      simp only [List.map_cons, List.nodup_cons] at distinct
      have first := apply change List.mem_cons_self
      rw [List.foldlM_cons, restoreProposal?_eq_some first, List.foldl_cons]
      refine ih distinct.2 _ fun other member => ?_
      refine (apply other (List.mem_cons_of_mem _ member)).after fun same => ?_
      exact distinct.1 (same ▸ List.mem_map_of_mem member)

theorem applies_of_mem_undoSince {state before : GovernanceState} {change : ProposalUndo}
    (member : change ∈ (undoSince state before).proposals) :
    Applies state.proposals change := by
  rcases List.mem_append.mp member with inSince | inLost
  · obtain ⟨⟨id, record⟩, inState, made⟩ := List.mem_filterMap.mp inSince
    have held := ExtTreeMap.mem_toList_iff_getElem?_eq_some.mp inState
    cases change with
    | added other => trivial
    | removed other record => trivial
    | updated other metadata addedVotes removedVotes =>
        have same : other = id := id_of_proposalSince made
        simp [Applies, same, held]
  · obtain ⟨⟨id, old⟩, _, made⟩ := List.mem_filterMap.mp inLost
    rw [proposalLost] at made
    split at made
    · cases made
    · obtain rfl := Option.some.inj made
      trivial

/-- Restoring never aborts on the undo record of a transition, and gives the state before it. -/
theorem restored_exactly (after before : GovernanceState) :
    after.restoreUndo? (after.undoSince before) = some before := by
  have distinct : ((after.undoSince before).proposals.reverse.map ProposalUndo.id).Nodup := by
    rw [List.map_reverse]
    exact List.nodup_reverse.mpr (proposalUndo_distinct after before)
  have restored := restoreUndo_undoSince after before
  rw [restoreUndo] at restored
  rw [restoreUndo?, foldlM_restoreProposal? distinct after.proposals fun change member =>
    applies_of_mem_undoSince (List.mem_reverse.mp member)]
  exact congrArg some restored

end GovernanceState

end Vtorrent
