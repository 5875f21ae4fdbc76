import Mathlib

/-!
# Scanning, rolling back and scanning again

A scan replays events on a list of entries.  An event takes the entries with a key away or
appends an entry whose key is not there yet.  Rolling back drops the entries above a
height, and it cannot bring back an entry that an undone event took away.  Scanning another
history from the rolled-back entries therefore gives what scanning it from the beginning
gives exactly when the other history takes away all the same old entries.
-/

namespace RollbackScan

variable {κ α : Type}

inductive Event (κ α : Type) where
  | spend (spent : κ)
  | create (created : α)

def spent : List (Event κ α) → List κ
  | [] => []
  | .spend key :: events => key :: spent events
  | .create _ :: events => spent events

def Creates (condition : α → Prop) (events : List (Event κ α)) : Prop :=
  ∀ created, .create created ∈ events → condition created

theorem spent_append (first second : List (Event κ α)) :
    spent (first ++ second) = spent first ++ spent second := by
  induction first with
  | nil => rfl
  | cons event first ih => cases event <;> simp [spent, ih]

variable [DecidableEq κ] (key : α → κ)

def Event.apply (entries : List α) : Event κ α → List α
  | .spend spent => entries.filter fun entry => decide (key entry ≠ spent)
  | .create created =>
      if entries.any fun entry => decide (key entry = key created) then entries
      else entries ++ [created]

def replay (events : List (Event κ α)) (entries : List α) : List α :=
  events.foldl (Event.apply key) entries

theorem replay_cons (event : Event κ α) (events : List (Event κ α)) (entries : List α) :
    replay key (event :: events) entries = replay key events (event.apply key entries) := rfl

theorem replay_append (first second : List (Event κ α)) (entries : List α) :
    replay key (first ++ second) entries = replay key second (replay key first entries) :=
  List.foldl_append

variable {key}

theorem filter_apply_create (condition : α → Bool) {created : α}
    (fails : condition created = false) (entries : List α) :
    (Event.apply key entries (.create created)).filter condition =
      entries.filter condition := by
  rw [Event.apply]
  split
  · rfl
  · simp [fails]

theorem filter_replay {old : α → Bool} {events : List (Event κ α)}
    (new : Creates (fun created => old created = false) events) (entries : List α) :
    (replay key events entries).filter old =
      entries.filter fun entry => old entry && decide (key entry ∉ spent events) := by
  induction events generalizing entries with
  | nil => simp [replay, spent]
  | cons event events ih =>
      have later : Creates (fun created => old created = false) events :=
        fun created member => new created (List.mem_cons_of_mem _ member)
      rw [replay_cons, ih later]
      cases event with
      | spend gone =>
          rw [Event.apply, List.filter_filter]
          apply List.filter_congr
          intro entry _
          simp only [spent, List.mem_cons, not_or, Bool.decide_and, Bool.and_assoc]
          rw [Bool.and_comm (decide (key entry ∉ spent events))]
      | create created =>
          have fails : (old created && decide (key created ∉ spent events)) = false := by
            rw [new created List.mem_cons_self, Bool.false_and]
          exact filter_apply_create (fun entry => old entry && decide (key entry ∉ spent events))
            fails entries

/-- Entries that differ only in what the events take away end up the same. -/
theorem replay_congr {events : List (Event κ α)} {first second : List α}
    (agree : (first.filter fun entry => decide (key entry ∉ spent events)) =
      second.filter fun entry => decide (key entry ∉ spent events)) :
    replay key events first = replay key events second := by
  induction events generalizing first second with
  | nil => simpa [spent, replay] using agree
  | cons event events ih =>
      rw [replay_cons, replay_cons]
      apply ih
      cases event with
      | spend gone =>
          rw [Event.apply, Event.apply, List.filter_filter, List.filter_filter]
          simpa [spent, not_or, Bool.and_comm] using agree
      | create created =>
          rw [spent] at agree
          by_cases taken : key created ∈ spent events
          · rw [filter_apply_create _ (by simpa using taken),
              filter_apply_create _ (by simpa using taken), agree]
          · have present : ∀ entries : List α,
                (entries.any fun entry => decide (key entry = key created)) =
                  (entries.filter fun entry => decide (key entry ∉ spent events)).any
                    fun entry => decide (key entry = key created) := by
              intro entries
              rw [List.any_filter]
              apply List.any_congr rfl
              intro entry
              by_cases same : key entry = key created
              · simp [same, taken]
              · simp [same]
            rw [Event.apply, Event.apply, present first, present second, agree]
            split
            · exact agree
            · rw [List.filter_append, List.filter_append, agree]

section Rollback

variable {old : α → Bool} {common : List α} {left right : List (Event κ α)}

/-- Rolling back the left branch keeps the common entries it did not take away. -/
theorem filter_replay_common (allOld : ∀ entry ∈ common, old entry = true)
    (leftNew : Creates (fun created => old created = false) left) :
    (replay key left common).filter old =
      common.filter fun entry => decide (key entry ∉ spent left) := by
  rw [filter_replay leftNew]
  apply List.filter_congr
  intro entry member
  rw [allOld entry member, Bool.true_and]

/-- Replaying the right branch after rolling back the left one forgets exactly the common
entries that the left branch took away. -/
theorem replay_rollback (allOld : ∀ entry ∈ common, old entry = true)
    (leftNew : Creates (fun created => old created = false) left)
    (takenAgain : ∀ entry ∈ common, key entry ∈ spent left → key entry ∈ spent right) :
    replay key right ((replay key left common).filter old) = replay key right common := by
  apply replay_congr
  rw [filter_replay_common allOld leftNew, List.filter_filter]
  apply List.filter_congr
  intro entry member
  by_cases gone : key entry ∈ spent left
  · simp [takenAgain entry member gone]
  · simp [gone]

theorem taken_of_replay_rollback (allOld : ∀ entry ∈ common, old entry = true)
    (leftNew : Creates (fun created => old created = false) left)
    (rightNew : Creates (fun created => old created = false) right)
    (same : ∀ entry, entry ∈ replay key right ((replay key left common).filter old) ↔
      entry ∈ replay key right common) :
    ∀ entry ∈ common, key entry ∈ spent left → key entry ∈ spent right := by
  intro entry member gone
  by_contra kept
  have stays : entry ∈ (replay key right common).filter old := by
    rw [filter_replay rightNew]
    simp [member, allOld entry member, kept]
  rw [List.mem_filter, ← same entry, ← List.mem_filter, filter_replay rightNew,
    filter_replay_common allOld leftNew, List.mem_filter, List.mem_filter] at stays
  simp [gone] at stays

end Rollback

end RollbackScan
