import Vtorrent.PeerTasks

/-!
# The count of requests being served

A request raises the count of requests being served and lowers it again once it is served.  A
request that meets a share ratio that is reached is dropped in between, and the count stays
raised.
-/

namespace Vtorrent

open Std FileTree

namespace PeerTask

variable {Target : Type} {context : PeerContext Target} {task next : PeerTask}

/-- A request that passes the checks of its length and of repetition while the ratio is
reached. -/
def MeetsRatio (context : PeerContext Target) (task : PeerTask) : PeerEvent Target → Prop
  | .message ⟨.request index start length, now, _, target⟩ =>
      task.running = true ∧ length ≠ 0 ∧ length ≤ maxServedBlock ∧
        task.isDuplicate ⟨index, start, length⟩ now = false ∧
        ratioReached context task target = true
  | _ => False

/-- No request of a run meets a ratio that is reached. -/
def NoneMeetsRatio (context : PeerContext Target) : PeerTask → List (PeerEvent Target) → Prop
  | _, [] => True
  | task, event :: events => ¬ MeetsRatio context task event ∧
      ∀ outcome next, perform context task event = .ok (outcome, next) →
        NoneMeetsRatio context next events

structure SameUploads (task next : PeerTask) : Prop where
  outstanding : next.outstandingServed = task.outstandingServed
  requests : next.servedRequests = task.servedRequests
  session : next.shared.session = task.shared.session
  running : next.running = task.running

theorem sameUploads_requestBlocks (now room : Nat) (task : PeerTask) :
    SameUploads task (requestBlocks context now room task) := by
  induction room generalizing task with
  | zero => exact ⟨rfl, rfl, rfl, rfl⟩
  | succ room ih =>
      unfold requestBlocks
      split
      · exact ⟨rfl, rfl, rfl, rfl⟩
      · rename_i scheduler _
        obtain ⟨outstanding, requests, session, running⟩ := ih { task with
          shared := { task.shared with scheduler := scheduler }
          inFlight := task.inFlight + 1 }
        exact ⟨outstanding, requests, session, running⟩

theorem SameUploads.isDuplicate (same : SameUploads task next) (request : BlockRequest)
    (now : Nat) : next.isDuplicate request now = task.isDuplicate request now := by
  unfold PeerTask.isDuplicate recentRequests
  rw [same.requests]

theorem SameUploads.ratioReached (same : SameUploads task next) (target : Target) :
    PeerTask.ratioReached context next target = PeerTask.ratioReached context task target := by
  unfold PeerTask.ratioReached
  rw [same.session]

theorem outstanding_storePiece {index : UInt32} {data : Bytes} {timestamp : UInt64}
    (stored : storePiece context task index data timestamp = .ok next) :
    next.outstandingServed = task.outstandingServed := by
  obtain ⟨⟨written, tree⟩, -, stored⟩ := Checked.bind_eq_ok.mp stored
  dsimp only at stored
  split at stored
  · cases stored
    rfl
  · cases stored
    rfl

theorem outstanding_handlePiece {index start : UInt32} {data : Bytes} {timestamp : UInt64}
    (handled : handlePiece context task index start data timestamp = .ok next) :
    next.outstandingServed = task.outstandingServed := by
  unfold handlePiece at handled
  dsimp only at handled
  split at handled
  · cases handled
    rfl
  · split at handled
    · split at handled
      · split at handled
        · obtain ⟨stored, kept, handled⟩ := Checked.bind_eq_ok.mp handled
          have same := outstanding_storePiece kept
          cases handled
          exact same
        · cases handled
          rfl
      · cases handled
        rfl
    · cases handled
      rfl

theorem handleRequest_outstanding {request : BlockRequest} {now : Nat} {timestamp : UInt64}
    {target : Target} {outcome : RequestOutcome} (idle : task.outstandingServed = 0)
    (handled : handleRequest context task request now timestamp target = .ok (outcome, next)) :
    (next.outstandingServed = 0 ↔
      ¬ (request.length ≠ 0 ∧ request.length ≤ maxServedBlock ∧
        task.isDuplicate request now = false ∧
        PeerTask.ratioReached context task target = true)) ∧ outcome ≠ .tooMany := by
  unfold handleRequest at handled
  split at handled
  · rename_i bad
    cases handled
    refine ⟨⟨fun _ good => ?_, fun _ => idle⟩, by simp⟩
    simp only [Bool.or_eq_true, beq_iff_eq, decide_eq_true_eq] at bad
    rcases bad with empty | long
    · exact good.1 empty
    · exact absurd long (UInt32.not_lt.mpr good.2.1)
  · rename_i good
    rw [Bool.or_eq_true, not_or, beq_iff_eq, decide_eq_true_eq, UInt32.not_lt] at good
    split at handled
    · rename_i repeated
      cases handled
      exact ⟨⟨fun _ fresh => by rw [repeated] at fresh; exact absurd fresh.2.2.1 (by decide),
        fun _ => idle⟩, by simp⟩
    · rename_i fresh
      rw [Bool.not_eq_true] at fresh
      dsimp only at handled
      split at handled
      · rename_i full
        rw [idle] at full
        exact absurd full (by decide)
      · split at handled
        · rename_i reached
          cases handled
          refine ⟨⟨fun zero => ?_, fun missed => absurd ⟨good.1, good.2, fresh, reached⟩ missed⟩,
            by simp⟩
          dsimp only at zero
          omega
        · rename_i missed
          obtain ⟨block, -, handled⟩ := Checked.bind_eq_ok.mp handled
          refine ⟨⟨fun _ met => missed met.2.2.2, fun _ => ?_⟩, ?_⟩
          · split at handled
            · cases handled
              exact idle
            · cases handled
              exact idle
          · split at handled
            · cases handled
              simp
            · cases handled
              simp

theorem handleMessage_cases {arrival : Arrival Target} {outcome : Option RequestOutcome}
    (handled : handleMessage context task arrival = .ok (outcome, next)) :
    ∃ prepared, SameUploads task prepared ∧
      ((∃ index start length result after, arrival.message = .request index start length ∧
          handleRequest context prepared ⟨index, start, length⟩ arrival.now arrival.timestamp
            arrival.target = .ok (result, after) ∧
          outcome = some result ∧ next.outstandingServed = after.outstandingServed) ∨
        (∀ index start length, arrival.message ≠ .request index start length) ∧
          outcome = none ∧ next.outstandingServed = prepared.outstandingServed) := by
  refine ⟨requestBlocks context arrival.now
    (task.shared.scheduler.maxPipelinedBlocks - task.inFlight) task,
    sameUploads_requestBlocks _ _ _, ?_⟩
  obtain ⟨message, now, timestamp, target⟩ := arrival
  unfold handleMessage at handled
  dsimp only at handled ⊢
  generalize requestBlocks context now
    (task.shared.scheduler.maxPipelinedBlocks - task.inFlight) task = prepared at handled ⊢
  cases message with
  | request index start length =>
      obtain ⟨⟨result, after⟩, served, handled⟩ := Checked.bind_eq_ok.mp handled
      refine .inl ⟨index, start, length, result, after, rfl, served, ?_⟩
      dsimp only at handled
      split at handled <;> cases handled <;> exact ⟨rfl, rfl⟩
  | piece index start data =>
      obtain ⟨after, received, handled⟩ := Checked.bind_eq_ok.mp handled
      have same := outstanding_handlePiece received
      cases handled
      exact .inr ⟨by simp, rfl, same⟩
  | handshake | keepAlive | choke | unchoke | interested | notInterested | havePiece | bitfield
  | cancel | port | extended =>
      cases handled
      exact .inr ⟨by simp, rfl, rfl⟩

theorem not_meetsRatio_of_ne {arrival : Arrival Target}
    (other : ∀ index start length, arrival.message ≠ .request index start length) :
    ¬ MeetsRatio context task (.message arrival) := by
  obtain ⟨message, now, timestamp, target⟩ := arrival
  cases message <;> simp_all [MeetsRatio]

theorem handleMessage_outstanding {arrival : Arrival Target}
    {outcome : Option RequestOutcome} (running : task.running = true)
    (idle : task.outstandingServed = 0)
    (handled : handleMessage context task arrival = .ok (outcome, next)) :
    (next.outstandingServed = 0 ↔ ¬ MeetsRatio context task (.message arrival)) ∧
      outcome ≠ some .tooMany := by
  obtain ⟨prepared, same, request | ⟨other, rfl, kept⟩⟩ := handleMessage_cases handled
  · obtain ⟨index, start, length, result, after, received, served, rfl, kept⟩ := request
    obtain ⟨count, notMany⟩ := handleRequest_outstanding (same.outstanding.trans idle) served
    rw [same.isDuplicate, same.ratioReached] at count
    refine ⟨?_, by simpa using notMany⟩
    obtain ⟨message, now, timestamp, target⟩ := arrival
    cases received
    rw [kept, count]
    simp only [MeetsRatio, running, true_and]
  · rw [kept, same.outstanding]
    exact ⟨iff_of_true idle (not_meetsRatio_of_ne other), by simp⟩

theorem perform_outstanding {event : PeerEvent Target} {outcome : Option RequestOutcome}
    (idle : task.outstandingServed = 0)
    (performed : perform context task event = .ok (outcome, next)) :
    (next.outstandingServed = 0 ↔ ¬ MeetsRatio context task event) ∧
      outcome ≠ some .tooMany := by
  cases event with
  | message arrival =>
      unfold perform at performed
      dsimp only at performed
      split at performed
      · rename_i running
        exact handleMessage_outstanding running idle performed
      · rename_i stopped
        cases performed
        refine ⟨iff_of_true idle fun met => ?_, by simp⟩
        obtain ⟨message, now, timestamp, target⟩ := arrival
        cases message <;> simp only [MeetsRatio] at met
        exact stopped met.1
  | others shared =>
      cases performed
      exact ⟨iff_of_true idle id, by simp⟩
  | cancel =>
      cases performed
      exact ⟨iff_of_true idle id, by simp⟩

theorem perform_of_meetsRatio {event : PeerEvent Target} (met : MeetsRatio context task event) :
    ∃ outcome next, perform context task event = .ok (outcome, next) := by
  cases event with
  | others | cancel => exact met.elim
  | message arrival =>
      obtain ⟨message, now, timestamp, target⟩ := arrival
      cases message with
      | request index start length =>
          obtain ⟨running, nonempty, short, fresh, reached⟩ := met
          have same := @sameUploads_requestBlocks _ context now
            (task.shared.scheduler.maxPipelinedBlocks - task.inFlight) task
          rw [← same.isDuplicate] at fresh
          rw [← same.ratioReached] at reached
          unfold perform handleMessage
          dsimp only
          rw [if_pos running]
          generalize requestBlocks context now
            (task.shared.scheduler.maxPipelinedBlocks - task.inFlight) task = prepared
            at fresh reached
          unfold handleRequest
          rw [if_neg (by simpa using ⟨nonempty, short⟩), fresh, if_neg (by decide)]
          dsimp only
          by_cases full : maxOutstandingPerPeer ≤ prepared.outstandingServed
          · rw [if_pos full]
            exact ⟨_, _, rfl⟩
          · have reached' : PeerTask.ratioReached context { prepared with
                servedRequests := (⟨index, start, length⟩, now + requestDedupeWindow) ::
                  prepared.recentRequests now
                outstandingServed := prepared.outstandingServed + 1 } target = true := reached
            rw [if_neg full, if_pos reached']
            exact ⟨_, _, rfl⟩
      | handshake | keepAlive | choke | unchoke | interested | notInterested | havePiece
      | bitfield | cancel | port | extended | piece => exact met.elim

/-- Whether nothing is counted as being served after each event of a run, and no request that
comes next is dropped for too many. -/
def NoneOutstanding (context : PeerContext Target) (task : PeerTask)
    (events : List (PeerEvent Target)) : Prop :=
  ∀ early, early <+: events → ∀ reached, performAll context task early = .ok reached →
    reached.outstandingServed = 0 ∧
      ∀ event outcome next, perform context reached event = .ok (outcome, next) →
        outcome ≠ some .tooMany

theorem noneOutstanding_nil (idle : task.outstandingServed = 0) :
    NoneOutstanding context task [] := by
  intro early isPrefix reached ran
  obtain rfl := List.prefix_nil.mp isPrefix
  cases ran
  exact ⟨idle, fun event outcome next performed => (perform_outstanding idle performed).2⟩

theorem noneOutstanding_cons {event : PeerEvent Target} {events : List (PeerEvent Target)}
    (idle : task.outstandingServed = 0) :
    NoneOutstanding context task (event :: events) ↔
      ∀ outcome next, perform context task event = .ok (outcome, next) →
        NoneOutstanding context next events := by
  constructor
  · intro none outcome next performed early isPrefix reached ran
    refine none (event :: early) (List.cons_prefix_cons.mpr ⟨rfl, isPrefix⟩) reached ?_
    unfold performAll
    rw [performed]
    exact ran
  · intro none early isPrefix reached ran
    cases early with
    | nil => exact noneOutstanding_nil idle [] List.nil_prefix reached ran
    | cons first early =>
        obtain ⟨rfl, rest⟩ := List.cons_prefix_cons.mp isPrefix
        obtain ⟨⟨outcome, next⟩, performed, ran⟩ := Checked.bind_eq_ok.mp ran
        exact none outcome next performed early rest reached ran

theorem noneOutstanding_iff {events : List (PeerEvent Target)}
    (idle : task.outstandingServed = 0) :
    NoneOutstanding context task events ↔ NoneMeetsRatio context task events := by
  induction events generalizing task with
  | nil => exact iff_of_true (noneOutstanding_nil idle) trivial
  | cons event events ih =>
      rw [noneOutstanding_cons idle]
      constructor
      · intro none
        have missed : ¬ MeetsRatio context task event := by
          intro met
          obtain ⟨outcome, next, performed⟩ := perform_of_meetsRatio met
          have zero := (none outcome next performed [] List.nil_prefix next rfl).1
          exact (perform_outstanding idle performed).1.mp zero met
        refine ⟨missed, fun outcome next performed => ?_⟩
        have zero := (perform_outstanding idle performed).1.mpr missed
        exact (ih zero).mp (none outcome next performed)
      · rintro ⟨missed, rest⟩ outcome next performed
        have zero := (perform_outstanding idle performed).1.mpr missed
        exact (ih zero).mpr (rest outcome next performed)

/-- After each event of a run of a peer's task nothing is counted as being served, and no request
is dropped for too many, exactly when no request of the run that passes the checks of its length
and of repetition meets a ratio that is reached. -/
theorem outstanding_zero_iff (context : PeerContext Target) (shared : SharedState)
    (events : List (PeerEvent Target)) :
    (∀ early, early <+: events → ∀ reached,
      performAll context (new shared) early = .ok reached →
        reached.outstandingServed = 0 ∧
          ∀ event outcome next, perform context reached event = .ok (outcome, next) →
            outcome ≠ some .tooMany) ↔
      NoneMeetsRatio context (new shared) events :=
  noneOutstanding_iff rfl

/-- A full count is neither lowered nor raised by a request, and the request is not served. -/
theorem handleRequest_of_full {request : BlockRequest} {now : Nat} {timestamp : UInt64}
    {target : Target} {outcome : RequestOutcome}
    (full : maxOutstandingPerPeer ≤ task.outstandingServed)
    (handled : handleRequest context task request now timestamp target = .ok (outcome, next)) :
    next.outstandingServed = task.outstandingServed ∧ ∀ block, outcome ≠ .served block := by
  unfold handleRequest at handled
  dsimp only at handled
  rw [if_pos full] at handled
  split at handled
  · cases handled
    exact ⟨rfl, by simp⟩
  · split at handled <;> cases handled <;> exact ⟨rfl, by simp⟩

theorem perform_of_full {event : PeerEvent Target} {outcome : Option RequestOutcome}
    (full : maxOutstandingPerPeer ≤ task.outstandingServed)
    (performed : perform context task event = .ok (outcome, next)) :
    next.outstandingServed = task.outstandingServed ∧
      ∀ block, outcome ≠ some (.served block) := by
  cases event with
  | message arrival =>
      unfold perform at performed
      dsimp only at performed
      split at performed
      · obtain ⟨prepared, same, request | ⟨other, rfl, kept⟩⟩ := handleMessage_cases performed
        · obtain ⟨index, start, length, result, after, received, served, rfl, kept⟩ := request
          rw [← same.outstanding] at full
          obtain ⟨count, unserved⟩ := handleRequest_of_full full served
          exact ⟨kept.trans (count.trans same.outstanding), by simpa using unserved⟩
        · exact ⟨kept.trans same.outstanding, by simp⟩
      · cases performed
        exact ⟨rfl, by simp⟩
  | others shared =>
      cases performed
      exact ⟨rfl, by simp⟩
  | cancel =>
      cases performed
      exact ⟨rfl, by simp⟩

theorem never_served_of_full {events : List (PeerEvent Target)} {event : PeerEvent Target}
    {reached : PeerTask} {outcome : Option RequestOutcome}
    (full : maxOutstandingPerPeer ≤ task.outstandingServed)
    (ran : performAll context task events = .ok reached)
    (performed : perform context reached event = .ok (outcome, next)) (block : Bytes) :
    outcome ≠ some (.served block) := by
  induction events generalizing task with
  | nil =>
      cases ran
      exact (perform_of_full full performed).2 block
  | cons first events ih =>
      obtain ⟨⟨result, after⟩, started, ran⟩ := Checked.bind_eq_ok.mp ran
      refine ih ?_ ran
      rw [(perform_of_full full started).1]
      exact full

namespace Sample

/-- A peer of a torrent of two bytes.  The targets are whole numbers: for these, and for the few
bytes below, the comparison of floating-point numbers is the one of the numbers. -/
def twoBytes : PeerContext Nat where
  metainfo := FileLayout.Sample.torrent [2] 1
  sha1 := fun _ => List.Vector.replicate 20 0
  remotePeerId := List.Vector.replicate 20 0
  peerKey := ""
  enabled target := decide (0 < target)
  reached uploaded downloaded target := decide (downloaded.toNat * target ≤ uploaded.toNat)

def halfway : SharedState where
  scheduler := (SchedulerState.new 2).markHave 0
  tree := ∅
  session := some { TorrentSession.new "" 0 with bytesDownloaded := 1, bytesUploaded := 1 }

def request (length target : Nat) : PeerEvent Nat :=
  .message ⟨.request 0 0 (UInt32.ofNat length), 0, 0, target⟩

end Sample

/-- After sixty-four requests that meet a target ratio of one, which is reached, the target is
switched off, and the next request is dropped for too many although none is being served. -/
theorem uploads_blocked_after_ratio :
    ((performAll Sample.twoBytes (new Sample.halfway)
      ((List.range' 1 64).map (Sample.request · 1))).bind fun task =>
        (perform Sample.twoBytes task (Sample.request 65 0)).map Prod.fst).toOption =
      some (some .tooMany) := by
  decide

end PeerTask

end Vtorrent
