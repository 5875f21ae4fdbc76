import Vtorrent.TorrentSessions

/-!
# The number of active sessions

A session is added when fewer than the allowed number are active, or in the place of a terminal
one.  A terminal session takes no slot, so what replaces it takes one more.
-/

namespace Vtorrent

open Std FiniteMap

namespace SessionManager

inductive Event
  | add (session : TorrentSession)
  | remove (id : String)
  | finish (id : String) (state : SessionState)

def perform (manager : SessionManager) : Event → SessionManager
  | .add session => (manager.addSession session).2
  | .remove id => manager.removeSession id
  | .finish id state => manager.setState id state

def performAll (manager : SessionManager) (events : List Event) : SessionManager :=
  events.foldl perform manager

/-- Sessions are added with a new id in a state that is not terminal, and only move to terminal
states. -/
def Valid (manager : SessionManager) : Event → Prop
  | .add session => session.id ∉ manager.sessions ∧ session.state.isTerminal = false
  | .remove _ => True
  | .finish _ state => state.isTerminal = true

/-- A session is added only while a slot is free or no session is terminal. -/
def Roomy (manager : SessionManager) : Event → Prop
  | .add _ => manager.activeCount < maxTorrentSessions ∨
      ∀ (id : String) (session : TorrentSession), manager.sessions[id]? = some session →
        session.state.isTerminal = false
  | _ => True

/-- A condition on every step of a run. -/
def Throughout (condition : SessionManager → Event → Prop) :
    SessionManager → List Event → Prop
  | _, [] => True
  | manager, event :: events =>
      condition manager event ∧ Throughout condition (manager.perform event) events

instance (manager : SessionManager) (event : Event) : Decidable (manager.Valid event) :=
  match event with
  | .add _ => inferInstanceAs (Decidable (_ ∧ _))
  | .remove _ => inferInstanceAs (Decidable True)
  | .finish _ state => inferInstanceAs (Decidable (state.isTerminal = true))

instance decidableThroughout (condition : SessionManager → Event → Prop)
    [∀ manager event, Decidable (condition manager event)] :
    (manager : SessionManager) → (events : List Event) →
      Decidable (Throughout condition manager events)
  | _, [] => inferInstanceAs (Decidable True)
  | manager, event :: events =>
      have := decidableThroughout condition (manager.perform event) events
      inferInstanceAs (Decidable (_ ∧ _))

theorem Throughout.imp {first second : SessionManager → Event → Prop}
    (implies : ∀ manager event, first manager event → second manager event)
    {manager : SessionManager} {events : List Event}
    (throughout : Throughout first manager events) : Throughout second manager events := by
  induction events generalizing manager with
  | nil => trivial
  | cons event events ih => exact ⟨implies _ _ throughout.1, ih throughout.2⟩

def slot (session : TorrentSession) : Nat := if session.state.isTerminal then 0 else 1

theorem activeCount_eq_total (manager : SessionManager) :
    manager.activeCount = total slot manager.sessions := by
  unfold activeCount total
  induction values manager.sessions with
  | nil => rfl
  | cons session sessions ih =>
      rw [List.countP_cons, ih, List.map_cons, List.sum_cons, slot]
      cases session.state.isTerminal <;> simp [Nat.add_comm]

theorem oldestTerminal_eq_none {manager : SessionManager}
    (nobody : manager.oldestTerminal = none) {id : String} {session : TorrentSession}
    (held : manager.sessions[id]? = some session) : session.state.isTerminal = false := by
  rw [oldestTerminal, Option.map_eq_none_iff, List.argmin_eq_none,
    List.filter_eq_nil_iff] at nobody
  simpa using nobody (id, session) (ExtTreeMap.mem_toList_iff_getElem?_eq_some.mpr held)

theorem oldestTerminal_eq_some {manager : SessionManager} {oldest : String}
    (found : manager.oldestTerminal = some oldest) :
    ∃ session, manager.sessions[oldest]? = some session ∧ session.state.isTerminal = true := by
  obtain ⟨⟨id, session⟩, least, rfl⟩ := Option.map_eq_some_iff.mp found
  obtain ⟨listed, terminal⟩ := List.mem_filter.mp (List.argmin_mem least)
  exact ⟨session, ExtTreeMap.mem_toList_iff_getElem?_eq_some.mp listed, terminal⟩

theorem activeCount_addSession {manager : SessionManager} {session : TorrentSession}
    (valid : manager.Valid (.add session)) :
    (manager.addSession session).2.activeCount =
      if maxTorrentSessions ≤ manager.activeCount ∧ manager.oldestTerminal = none then
        manager.activeCount
      else manager.activeCount + 1 := by
  obtain ⟨fresh, active⟩ := valid
  have one : slot session = 1 := by rw [slot, active]; rfl
  unfold addSession
  by_cases full : maxTorrentSessions ≤ manager.activeCount
  · rw [if_pos full]
    cases found : manager.oldestTerminal with
    | none => simp [full]
    | some oldest =>
        obtain ⟨dropped, held, terminal⟩ := oldestTerminal_eq_some found
        have zero : slot dropped = 0 := by rw [slot, terminal]; rfl
        have still : session.id ∉ manager.sessions.erase oldest := fun member =>
          fresh (ExtTreeMap.mem_of_mem_erase member)
        have kept := total_erase slot held
        rw [if_neg (by simp), activeCount_eq_total, activeCount_eq_total,
          total_insert slot session still, one]
        omega
  · rw [if_neg full, if_neg (fun both => full both.1), activeCount_eq_total,
      activeCount_eq_total, total_insert slot session fresh, one, Nat.add_comm]

theorem activeCount_removeSession_le (manager : SessionManager) (id : String) :
    (manager.removeSession id).activeCount ≤ manager.activeCount := by
  rw [activeCount_eq_total, activeCount_eq_total, removeSession]
  cases held : manager.sessions[id]? with
  | none =>
      have same : manager.sessions.erase id = manager.sessions := by
        apply ExtTreeMap.ext_getElem?
        intro other
        rcases eq_or_ne other id with rfl | different
        · rw [ExtTreeMap.getElem?_erase_self, held]
        · exact getElem?_erase_of_ne different
      rw [same]
  | some session =>
      have := total_erase slot held
      dsimp only
      omega

theorem activeCount_setState_le (manager : SessionManager) (id : String) {state : SessionState}
    (terminal : state.isTerminal = true) :
    (manager.setState id state).activeCount ≤ manager.activeCount := by
  rw [activeCount_eq_total, activeCount_eq_total, setState]
  split
  · exact le_rfl
  · rename_i session held
    have balance := total_replace slot held { session with state := state }
    have zero : slot { session with state := state } = 0 := by rw [slot, terminal]; rfl
    dsimp only
    omega

/-- A slot is free or nobody is terminal. -/
def Waiting (manager : SessionManager) (_ : Event) : Prop :=
  manager.activeCount < maxTorrentSessions ∨ manager.oldestTerminal = none

instance (manager : SessionManager) (event : Event) : Decidable (manager.Waiting event) :=
  inferInstanceAs (Decidable (_ ∨ _))

theorem Waiting.roomy {manager : SessionManager} {event : Event}
    (waiting : manager.Waiting event) : manager.Roomy event := by
  cases event with
  | add session =>
      exact waiting.imp_right fun nobody id other held => oldestTerminal_eq_none nobody held
  | _ => trivial

/-- A step that is not roomy adds an active session beyond the limit. -/
theorem activeCount_perform {manager : SessionManager} {event : Event}
    (valid : manager.Valid event) (within : manager.activeCount ≤ maxTorrentSessions) :
    (manager.perform event).activeCount ≤ maxTorrentSessions ↔ manager.Roomy event := by
  cases event with
  | remove id =>
      exact ⟨fun _ => trivial, fun _ => (activeCount_removeSession_le manager id).trans within⟩
  | finish id state =>
      exact ⟨fun _ => trivial, fun _ =>
        (activeCount_setState_le manager id valid).trans within⟩
  | add session =>
      have count := activeCount_addSession valid
      constructor
      · intro still
        by_contra crowded
        rw [Roomy, not_or, Nat.not_lt] at crowded
        have found : manager.oldestTerminal ≠ none := fun nobody =>
          crowded.2 fun _ _ held => oldestTerminal_eq_none nobody held
        rw [if_neg (fun both => found both.2)] at count
        change (manager.addSession session).2.activeCount ≤ _ at still
        omega
      · intro roomy
        change (manager.addSession session).2.activeCount ≤ _
        rw [count]
        split
        · exact within
        · rename_i taken
          rcases roomy with free | nobody
          · exact free
          · have none : manager.oldestTerminal = none := by
              cases found : manager.oldestTerminal with
              | none => rfl
              | some oldest =>
                  obtain ⟨_, held, terminal⟩ := oldestTerminal_eq_some found
                  rw [nobody oldest _ held] at terminal
                  cases terminal
            by_contra beyond
            exact taken ⟨by omega, none⟩

theorem within_iff {manager : SessionManager} {events : List Event}
    (valid : Throughout Valid manager events)
    (within : manager.activeCount ≤ maxTorrentSessions) :
    (∀ early, early <+: events →
      (manager.performAll early).activeCount ≤ maxTorrentSessions) ↔
      Throughout Roomy manager events := by
  induction events generalizing manager with
  | nil =>
      refine ⟨fun _ => trivial, fun _ early begins => ?_⟩
      rw [List.prefix_nil.mp begins]
      exact within
  | cons event events ih =>
      have step := activeCount_perform valid.1 within
      constructor
      · intro always
        have next := always [event] (by simp)
        refine ⟨step.mp next, (ih valid.2 next).mp fun early begins => ?_⟩
        exact always (event :: early) (List.cons_prefix_cons.mpr ⟨rfl, begins⟩)
      · rintro ⟨roomy, rest⟩ early begins
        cases early with
        | nil => exact within
        | cons first early =>
            obtain ⟨rfl, further⟩ := List.cons_prefix_cons.mp begins
            exact (ih valid.2 (step.mpr roomy)).mpr rest early further

/-- Over a run from the start, the number of active sessions stays within the limit exactly when
no session is added while all slots are taken and some session is terminal. -/
theorem active_sessions_within_iff {events : List Event} (valid : Throughout Valid new events) :
    (∀ early, early <+: events → (new.performAll early).activeCount ≤ maxTorrentSessions) ↔
      Throughout Roomy new events :=
  within_iff valid (Nat.zero_le _)

namespace Sample

def name (number : Nat) : String := String.ofList [Char.ofNat (65 + number)]

def session (number : Nat) : TorrentSession := .new (name number) 0

def full : List Event := (List.range 65).map fun number => .add (session number)

def crowd : List Event :=
  (List.range 64).map (fun number => .add (session number)) ++
    [.finish (name 0) .seeding, .add (session 64), .add (session 65)]

end Sample

open Sample in
/-- All slots are taken and nobody is finished, so that one more session is refused. -/
theorem full_sessions_within :
    (new.performAll full).activeCount = 64 ∧
      (new.performAll full).activeCount ≤ maxTorrentSessions := by
  obtain ⟨valid, waiting, active⟩ : Throughout Valid new full ∧ Throughout Waiting new full ∧
      (new.performAll full).activeCount = 64 := by
    decide +kernel
  exact ⟨active, (active_sessions_within_iff valid).mpr
    (waiting.imp fun _ _ => Waiting.roomy) full (List.prefix_refl _)⟩

open Sample in
/-- The last session takes the place of the finished one and one slot too many. -/
theorem crowd_exceeds :
    Throughout Valid new crowd ∧ (new.performAll crowd).activeCount = 65 ∧
      maxTorrentSessions = 64 := by
  decide +kernel

end SessionManager

end Vtorrent
