import Vtorrent.BanManager
import Vtorrent.MapTrims

/-!
# The limit on requests

Every address gets a window that starts with its first request.  The limiter counts the
requests of the window, refuses those above the limit and starts a new window with the first
request after the old one has run out.  Times are in nanoseconds.
-/

namespace Vtorrent

open Std

/-- `WINDOW`. -/
def requestWindow : Nat := seconds 60
def maxRequests : Nat := 100
def pruneInterval : Nat := seconds 30
def maxTrackedClients : Nat := 100000

/-- For every address the requests of its window and the window's start. -/
structure RateLimiter where
  clients : ExtTreeMap IpAddr (Nat × Nat)
  lastPrune : Nat

namespace RateLimiter

def new (now : Nat) : RateLimiter := ⟨∅, now⟩

/-- Windows that have run out are dropped from time to time. -/
def prune (limiter : RateLimiter) (now : Nat) : RateLimiter :=
  if now - limiter.lastPrune ≥ pruneInterval then
    { clients := limiter.clients.filter fun _ entry => decide (now - entry.2 < requestWindow)
      lastPrune := now }
  else limiter

/-- The windows above three quarters of the limit. -/
def excess (limiter : RateLimiter) : Nat := limiter.clients.size - maxTrackedClients * 3 / 4

/-- A new address in a full map displaces the oldest windows. -/
def evict (limiter : RateLimiter) (ip : IpAddr) : RateLimiter :=
  if limiter.clients.size ≥ maxTrackedClients ∧ ¬ limiter.clients.contains ip then
    { limiter with clients := FiniteMap.trim Prod.snd limiter.clients limiter.excess }
  else limiter

/-- Count a request in the window of its address.  The source counts in `u32`, and its addition
panics at `2 ^ 32` requests in one window. -/
def count (limiter : RateLimiter) (ip : IpAddr) (now : Nat) : RateLimiter × Bool :=
  let entry := limiter.clients[ip]?.getD (0, now)
  if now - entry.2 ≥ requestWindow then
    ({ limiter with clients := limiter.clients.insert ip (1, now) }, false)
  else
    ({ limiter with clients := limiter.clients.insert ip (entry.1 + 1, entry.2) },
      decide (entry.1 + 1 > maxRequests))

def isRateLimited (limiter : RateLimiter) (ip : IpAddr) (now : Nat) : RateLimiter × Bool :=
  ((limiter.prune now).evict ip).count ip now

end RateLimiter

structure Request where
  ip : IpAddr
  now : Nat
  deriving DecidableEq

namespace RateLimiter

/-- The answers to a list of requests: whether each of them is refused. -/
def answers : RateLimiter → List Request → List Bool
  | _, [] => []
  | limiter, request :: requests =>
      let (next, limited) := limiter.isRateLimited request.ip request.now
      limited :: next.answers requests

def after (limiter : RateLimiter) (requests : List Request) : RateLimiter :=
  requests.foldl (fun limiter request => (limiter.isRateLimited request.ip request.now).1) limiter

/-! ## The windows of one address -/

def serve (now : Nat) : Option (Nat × Nat) → Nat × Nat
  | none => (1, now)
  | some (counted, start) =>
      if now - start < requestWindow then (counted + 1, start) else (1, now)

section Windows

variable {limiter : RateLimiter} {ip other : IpAddr} {now : Nat} {entry : Nat × Nat}

theorem of_prune (found : (limiter.prune now).clients[ip]? = some entry) :
    limiter.clients[ip]? = some entry := by
  rw [prune] at found
  split at found
  · rw [FiniteMap.getElem?_filter] at found
    exact (Option.filter_eq_some_iff.mp found).1
  · exact found

theorem prune_of_running (found : limiter.clients[ip]? = some entry)
    (running : now - entry.2 < requestWindow) :
    (limiter.prune now).clients[ip]? = some entry := by
  rw [prune]
  split
  · rw [FiniteMap.getElem?_filter, found]
    simp [Option.filter, running]
  · exact found

theorem size_prune_le : (limiter.prune now).clients.size ≤ limiter.clients.size := by
  rw [prune]
  split
  · exact ExtTreeMap.size_filter_le_size
  · exact le_rfl

theorem evict_of_room (room : limiter.clients.size < maxTrackedClients) :
    limiter.evict ip = limiter := by
  rw [evict, if_neg]
  omega

theorem of_evict (found : (limiter.evict other).clients[ip]? = some entry) :
    limiter.clients[ip]? = some entry := by
  by_cases full : limiter.clients.size ≥ maxTrackedClients ∧ ¬ limiter.clients.contains other
  · rw [evict, if_pos full] at found
    dsimp only at found
    exact FiniteMap.of_trim found
  · rwa [evict, if_neg full] at found

/-- A request continues the running window of its address or starts a new one. -/
theorem count_eq : limiter.count ip now =
    ({ limiter with clients := limiter.clients.insert ip (serve now limiter.clients[ip]?) },
      decide ((serve now limiter.clients[ip]?).1 > maxRequests)) := by
  rw [count]
  cases limiter.clients[ip]? with
  | none => simp [serve, requestWindow, seconds, maxRequests]
  | some entry =>
      obtain ⟨counted, start⟩ := entry
      by_cases running : now - start < requestWindow
      · simp only [Option.getD_some, serve, running, if_true, ge_iff_le,
          if_neg (Nat.not_le_of_lt running)]
      · have expired : requestWindow ≤ now - start := Nat.le_of_not_lt running
        simp [serve, running, expired, maxRequests]

theorem count_clients_of_ne (apart : ip ≠ other) :
    (limiter.count other now).1.clients[ip]? = limiter.clients[ip]? := by
  rw [count_eq]
  simp [ExtTreeMap.getElem?_insert, Ne.symm apart]

theorem excess_le : limiter.excess ≤ limiter.clients.size := Nat.sub_le _ _

theorem size_evict_lt (absent : ¬ limiter.clients.contains ip)
    (bounded : limiter.clients.size ≤ maxTrackedClients) :
    (limiter.evict ip).clients.size < maxTrackedClients := by
  rw [evict]
  split
  · rename_i full
    rw [FiniteMap.size_trim _ _ excess_le, excess]
    simp only [maxTrackedClients] at *
    omega
  · rename_i room
    exact Nat.lt_of_not_le fun full => room ⟨full, absent⟩

theorem serve_prune :
    serve now (limiter.prune now).clients[ip]? = serve now limiter.clients[ip]? := by
  cases pruned : (limiter.prune now).clients[ip]? with
  | some entry => rw [of_prune pruned]
  | none =>
      cases found : limiter.clients[ip]? with
      | none => rfl
      | some entry =>
          have expired : ¬ now - entry.2 < requestWindow := fun running => by
            rw [prune_of_running found running] at pruned
            cases pruned
          simp [serve, expired]

theorem isRateLimited_self (room : limiter.clients.size < maxTrackedClients) :
    (limiter.isRateLimited ip now).1.clients[ip]? = some (serve now limiter.clients[ip]?) ∧
      (limiter.isRateLimited ip now).2 =
        decide ((serve now limiter.clients[ip]?).1 > maxRequests) := by
  rw [isRateLimited, evict_of_room (Nat.lt_of_le_of_lt size_prune_le room), count_eq, serve_prune]
  exact ⟨ExtTreeMap.getElem?_insert_self, rfl⟩

/-- Another address's request leaves the window alone, unless it has run out. -/
theorem isRateLimited_other (room : limiter.clients.size < maxTrackedClients) (apart : ip ≠ other) :
    (limiter.isRateLimited other now).1.clients[ip]? = limiter.clients[ip]? ∨
      (limiter.isRateLimited other now).1.clients[ip]? = none ∧
        ∃ entry, limiter.clients[ip]? = some entry ∧ requestWindow ≤ now - entry.2 := by
  rw [isRateLimited, evict_of_room (Nat.lt_of_le_of_lt size_prune_le room),
    count_clients_of_ne apart]
  cases found : limiter.clients[ip]? with
  | none =>
      left
      rw [Option.eq_none_iff_forall_ne_some]
      intro entry stays
      rw [of_prune stays] at found
      cases found
  | some entry =>
      by_cases running : now - entry.2 < requestWindow
      · exact .inl (prune_of_running found running)
      · cases pruned : (limiter.prune now).clients[ip]? with
        | none => exact .inr ⟨rfl, entry, rfl, Nat.le_of_not_lt running⟩
        | some kept =>
            left
            rw [← found, of_prune pruned]

theorem isRateLimited_eq_serve : ∃ entry,
    (entry = none ∨ entry = limiter.clients[ip]?) ∧
      (limiter.isRateLimited ip now).1.clients[ip]? = some (serve now entry) ∧
      (limiter.isRateLimited ip now).2 = decide ((serve now entry).1 > maxRequests) := by
  refine ⟨((limiter.prune now).evict ip).clients[ip]?, ?_, ?_⟩
  · cases kept : ((limiter.prune now).evict ip).clients[ip]? with
    | none => exact .inl rfl
    | some entry => exact .inr (of_prune (of_evict kept)).symm
  · rw [isRateLimited, count_eq]
    exact ⟨ExtTreeMap.getElem?_insert_self, rfl⟩

theorem of_isRateLimited_other (apart : ip ≠ other)
    (found : (limiter.isRateLimited other now).1.clients[ip]? = some entry) :
    limiter.clients[ip]? = some entry := by
  rw [isRateLimited, count_clients_of_ne apart] at found
  exact of_prune (of_evict found)

theorem size_isRateLimited_le (bounded : limiter.clients.size ≤ maxTrackedClients) :
    (limiter.isRateLimited ip now).1.clients.size ≤ maxTrackedClients := by
  have pruned : (limiter.prune now).clients.size ≤ maxTrackedClients :=
    Nat.le_trans size_prune_le bounded
  rw [isRateLimited, count_eq]
  dsimp only
  by_cases absent : (limiter.prune now).clients.contains ip
  · have same : (limiter.prune now).evict ip = limiter.prune now := by
      rw [evict, if_neg fun full => full.2 absent]
    rw [same, ExtTreeMap.size_insert, if_pos absent]
    exact pruned
  · exact Nat.le_trans ExtTreeMap.size_insert_le (size_evict_lt absent pruned)

end Windows

/-- However many addresses send requests, the limiter tracks a bounded number of them. -/
theorem size_after_le (start : Nat) (requests : List Request) :
    ((new start).after requests).clients.size ≤ maxTrackedClients := by
  induction requests using List.reverseRecOn with
  | nil => simp [after, new]
  | append_singleton requests request ih =>
      rw [after, List.foldl_append, List.foldl_cons, List.foldl_nil]
      exact size_isRateLimited_le ih

/-! ## How many requests are served -/

/-- The requests of an address that can still be served in a window of time, given its clock
and the limiter's window of the address. -/
def allowance (opens clock : Nat) (entry : Option (Nat × Nat)) : Nat :=
  if opens + requestWindow ≤ clock then 0
  else if clock < opens then 2 * maxRequests
  else match entry with
    | none => maxRequests
    | some (counted, start) =>
        if start < opens then maxRequests - counted + maxRequests else maxRequests - counted

/-- Whether a request falls into a window of time and is served. -/
def servedIn (ip : IpAddr) (opens : Nat) (served : Request × Bool) : Bool :=
  decide (served.1.ip = ip ∧ opens ≤ served.1.now ∧ served.1.now < opens + requestWindow) &&
    !served.2

theorem allowance_serve {opens clock now : Nat} {entry : Option (Nat × Nat)}
    (started : ∀ counted start, entry = some (counted, start) → start ≤ clock)
    (later : clock ≤ now) :
    (if opens ≤ now ∧ now < opens + requestWindow ∧ (serve now entry).1 ≤ maxRequests
      then 1 else 0) + allowance opens now (some (serve now entry)) ≤
        allowance opens clock entry := by
  have positive : 0 < maxRequests := by decide
  cases entry with
  | none =>
      have first : serve now none = (1, now) := rfl
      rw [first]
      simp only [allowance]
      split_ifs <;> omega
  | some window =>
      obtain ⟨counted, start⟩ := window
      have before := started counted start rfl
      simp only [allowance, serve]
      by_cases running : now - start < requestWindow
      · simp only [running, if_true]
        split_ifs <;> omega
      · simp only [running, if_false]
        split_ifs <;> omega

/-- Time passing allows no more requests, nor does forgetting a window that has run out. -/
theorem allowance_later {opens clock now : Nat} {entry next : Option (Nat × Nat)}
    (started : ∀ counted start, entry = some (counted, start) → start ≤ clock)
    (later : clock ≤ now)
    (kept : next = entry ∨ next = none ∧ ∃ window, entry = some window ∧
      requestWindow ≤ now - window.2) :
    allowance opens now next ≤ allowance opens clock entry := by
  rcases kept with rfl | ⟨rfl, ⟨counted, start⟩, rfl, expired⟩
  · cases next with
    | none =>
        simp only [allowance]
        split_ifs <;> omega
    | some window =>
        obtain ⟨counted, start⟩ := window
        have before := started counted start rfl
        simp only [allowance]
        split_ifs <;> omega
  · have before := started counted start rfl
    simp only [allowance] at expired ⊢
    split_ifs <;> omega

theorem start_le_of_isRateLimited {limiter : RateLimiter} {ip : IpAddr} {clock : Nat}
    {request : Request} (later : clock ≤ request.now)
    (started : ∀ counted start, limiter.clients[ip]? = some (counted, start) → start ≤ clock) :
    ∀ counted start, (limiter.isRateLimited request.ip request.now).1.clients[ip]? =
      some (counted, start) → start ≤ request.now := by
  intro counted start found
  by_cases same : ip = request.ip
  · subst same
    obtain ⟨entry, origin, window, _⟩ :=
      @isRateLimited_eq_serve limiter request.ip request.now
    rw [window, Option.some.injEq] at found
    cases entry with
    | none =>
        simp only [serve, Prod.mk.injEq] at found
        omega
    | some old =>
        obtain ⟨oldCounted, oldStart⟩ := old
        have before := started oldCounted oldStart (origin.resolve_left (by simp)).symm
        simp only [serve] at found
        split at found <;> simp only [Prod.mk.injEq] at found <;> omega
  · exact Nat.le_trans (started counted start (of_isRateLimited_other same found)) later

theorem countP_served_le {ip : IpAddr} {opens clock : Nat} {limiter : RateLimiter}
    {requests : List Request}
    (ordered : requests.Pairwise fun first second => first.now ≤ second.now)
    (later : ∀ request ∈ requests, clock ≤ request.now)
    (started : ∀ counted start, limiter.clients[ip]? = some (counted, start) → start ≤ clock)
    (room : ∀ past, past <+: requests → (limiter.after past).clients.size < maxTrackedClients) :
    (requests.zip (limiter.answers requests)).countP (servedIn ip opens) ≤
      allowance opens clock limiter.clients[ip]? := by
  induction requests generalizing limiter clock with
  | nil => simp
  | cons request requests ih =>
      obtain ⟨follow, ordered⟩ := List.pairwise_cons.mp ordered
      have reached := later request List.mem_cons_self
      have here : limiter.clients.size < maxTrackedClients := room [] (List.nil_prefix)
      have rest := ih ordered follow (start_le_of_isRateLimited reached started)
        fun past isPast => room (request :: past) (List.prefix_cons_inj _ |>.mpr isPast)
      rw [answers, List.zip_cons_cons, List.countP_cons]
      refine Nat.le_trans (Nat.add_le_add_right rest _) ?_
      by_cases same : request.ip = ip
      · subst same
        obtain ⟨window, limited⟩ :=
          @isRateLimited_self limiter request.ip request.now here
        rw [window, Nat.add_comm]
        refine Nat.le_trans (Nat.add_le_add_right ?_ _) (allowance_serve started reached)
        rw [servedIn, limited]
        split_ifs <;> simp_all
      · have untouched := @isRateLimited_other limiter ip request.ip request.now here (Ne.symm same)
        have step : allowance opens request.now _ ≤ allowance opens clock _ :=
          allowance_later started reached untouched
        simpa [servedIn, same] using step

/-- In any minute, an address is served at most twice as many requests as fit one window, as
long as the limiter has room for every address. -/
theorem served_in_minute_le (start : Nat) {requests : List Request}
    (ordered : requests.Pairwise fun first second => first.now ≤ second.now)
    (room : ∀ past, past <+: requests →
      ((new start).after past).clients.size < maxTrackedClients) (ip : IpAddr) (opens : Nat) :
    (requests.zip ((new start).answers requests)).countP (servedIn ip opens) ≤
      2 * maxRequests := by
  have fresh : (new start).clients[ip]? = none := by simp [new]
  have bound : _ ≤ allowance opens 0 (new start).clients[ip]? :=
    countP_served_le ordered (fun _ _ => Nat.zero_le _) (by simp [fresh]) room
  refine Nat.le_trans bound ?_
  rw [fresh]
  simp only [allowance]
  split_ifs <;> omega

namespace Sample

def busyClient : IpAddr := .v4 (List.Vector.replicate 4 1)

def quietClient : IpAddr := .v4 (List.Vector.replicate 4 2)

/-- An address uses up its window at the end of it and then the next one at its start, while
another address sends two requests. -/
def busy : List Request :=
  ⟨quietClient, seconds 5⟩ :: ⟨busyClient, seconds 5⟩ ::
    (List.replicate 100 ⟨busyClient, seconds 64⟩ ++
      (List.replicate 101 ⟨busyClient, seconds 65⟩ ++ [⟨quietClient, seconds 66⟩]))

theorem busy_ordered : busy.Pairwise fun first second => first.now ≤ second.now := by
  decide +kernel

end Sample

open Sample in
/-- Of 201 requests within a minute 199 are served. -/
theorem served_in_minute_le_of_busy :
    let served := busy.zip ((new 0).answers busy)
    served.countP (fun answered => answered.2) = 2 ∧
      served.countP (servedIn busyClient (seconds 6)) = 199 ∧
      served.countP (servedIn busyClient (seconds 6)) ≤ 2 * maxRequests := by
  obtain ⟨refused, served, room⟩ :
      (busy.zip ((new 0).answers busy)).countP (fun answered => answered.2) = 2 ∧
        (busy.zip ((new 0).answers busy)).countP (servedIn busyClient (seconds 6)) = 199 ∧
        ∀ count ≤ busy.length,
          ((new 0).after (busy.take count)).clients.size < maxTrackedClients := by
    decide +kernel
  refine ⟨refused, served, served_in_minute_le 0 busy_ordered ?_ _ _⟩
  intro past isPast
  rw [List.prefix_iff_eq_take.mp isPast]
  exact room past.length isPast.length_le

def sentIn (ip : IpAddr) (opens : Nat) (request : Request) : Bool :=
  decide (request.ip = ip ∧ opens ≤ request.now ∧ request.now < opens + requestWindow)

def sentFrom (ip : IpAddr) (opens : Nat) (request : Request) : Bool :=
  decide (request.ip = ip ∧ opens ≤ request.now)

/-- Every request the limiter has counted in a window was sent since the window's start. -/
def CountsSent (entry : Option (Nat × Nat)) (ip : IpAddr) (past : List Request) : Prop :=
  ∀ counted start, entry = some (counted, start) → counted ≤ past.countP (sentFrom ip start)

section Moderate

variable {ip : IpAddr} {past : List Request} {request : Request} {entry : Option (Nat × Nat)}

theorem CountsSent.append (counts : CountsSent entry ip past) :
    CountsSent entry ip (past ++ [request]) := by
  intro counted start found
  rw [List.countP_append]
  exact Nat.le_add_right_of_le (counts counted start found)

theorem CountsSent.serve (counts : CountsSent entry ip past) (own : request.ip = ip)
    (started : ∀ counted start, entry = some (counted, start) → start ≤ request.now) :
    CountsSent (some (serve request.now entry)) ip (past ++ [request]) ∧
      (serve request.now entry).2 ≤ request.now ∧
      request.now < (serve request.now entry).2 + requestWindow := by
  have positive : 0 < requestWindow := by decide
  have fresh : CountsSent (some (1, request.now)) ip (past ++ [request]) := by
    rintro counted start ⟨⟩
    simp [List.countP_append, sentFrom, own]
  cases entry with
  | none => exact ⟨fresh, le_rfl, Nat.lt_add_of_pos_right positive⟩
  | some window =>
      obtain ⟨counted, start⟩ := window
      have before := started counted start rfl
      have sent := counts counted start rfl
      rw [RateLimiter.serve]
      split
      · rename_i running
        refine ⟨?_, before, by dsimp only; omega⟩
        rintro _ _ ⟨⟩
        simpa [List.countP_append, sentFrom, own, before] using sent
      · exact ⟨fresh, le_rfl, Nat.lt_add_of_pos_right positive⟩

theorem countP_sentFrom_le {start : Nat} (requests : List Request)
    (inside : ∀ request ∈ past, request.now < start + requestWindow) :
    past.countP (sentFrom ip start) ≤ (past ++ requests).countP (sentIn ip start) := by
  rw [List.countP_append]
  refine Nat.le_add_right_of_le (List.countP_mono_left fun sent among => ?_)
  simp only [sentFrom, sentIn, decide_eq_true_eq]
  rintro ⟨own, since⟩
  exact ⟨own, since, inside sent among⟩

theorem answers_of_moderate {limiter : RateLimiter} {requests : List Request}
    (ordered : (past ++ requests).Pairwise fun first second => first.now ≤ second.now)
    (moderate : ∀ opens, (past ++ requests).countP (sentIn ip opens) ≤ maxRequests)
    (counts : CountsSent limiter.clients[ip]? ip past)
    (started : ∀ counted start, limiter.clients[ip]? = some (counted, start) →
      ∀ request ∈ requests, start ≤ request.now) :
    ∀ served ∈ requests.zip (limiter.answers requests), served.1.ip = ip → served.2 = false := by
  induction requests generalizing limiter past with
  | nil => simp
  | cons request requests ih =>
      have split : past ++ request :: requests = past ++ [request] ++ requests := by simp
      rw [split] at ordered moderate
      obtain ⟨orderedPast, _, across⟩ := List.pairwise_append.mp ordered
      have later : ∀ other ∈ requests, request.now ≤ other.now := fun other among =>
        across request (by simp) other among
      have earlier : ∀ other ∈ past ++ [request], other.now ≤ request.now := by
        intro other among
        rcases List.mem_append.mp among with inPast | isLast
        · exact (List.pairwise_append.mp orderedPast).2.2 other inPast request (by simp)
        · rw [List.mem_singleton.mp isLast]
      rw [answers, List.zip_cons_cons]
      by_cases own : request.ip = ip
      · subst own
        obtain ⟨entry, origin, window, limited⟩ :=
          @isRateLimited_eq_serve limiter request.ip request.now
        have known : ∀ counted start, entry = some (counted, start) →
            limiter.clients[request.ip]? = some (counted, start) := by
          rintro counted start rfl
          exact (origin.resolve_left (by simp)).symm
        have entryCounts : CountsSent entry request.ip past := fun counted start found =>
          counts counted start (known counted start found)
        obtain ⟨sent, begun, within⟩ := entryCounts.serve rfl fun counted start found =>
          started counted start (known counted start found) request List.mem_cons_self
        have few : (RateLimiter.serve request.now entry).1 ≤ maxRequests := by
          refine Nat.le_trans (sent _ _ rfl) (Nat.le_trans (countP_sentFrom_le requests ?_)
            (moderate _))
          exact fun other among => Nat.lt_of_le_of_lt (earlier other among) within
        have rest := ih ordered moderate (by rw [window]; exact sent) fun counted start found => by
          rw [window, Option.some.injEq] at found
          intro other among
          have := later other among
          rw [found] at begun
          exact Nat.le_trans begun this
        intro served among isOwn
        rcases List.mem_cons.mp among with rfl | among
        · simpa [limited] using few
        · exact rest served among isOwn
      · have rest := @ih _ (limiter.isRateLimited request.ip request.now).1 ordered moderate
          (fun counted start found =>
            counts.append counted start (of_isRateLimited_other (Ne.symm own) found))
          fun counted start found other among =>
            started counted start (of_isRateLimited_other (Ne.symm own) found) other
              (List.mem_cons_of_mem _ among)
        intro served among isOwn
        rcases List.mem_cons.mp among with rfl | among
        · exact absurd isOwn own
        · exact rest served among isOwn

end Moderate

/-- An address that never sends more requests in a minute than fit one window is never
refused, whatever other addresses send. -/
theorem moderate_never_limited (start : Nat) {requests : List Request}
    (ordered : requests.Pairwise fun first second => first.now ≤ second.now) {ip : IpAddr}
    (moderate : ∀ opens, requests.countP (sentIn ip opens) ≤ maxRequests) :
    ∀ served ∈ requests.zip ((new start).answers requests),
      served.1.ip = ip → served.2 = false := by
  have fresh : (new start).clients[ip]? = none := by simp [new]
  refine @answers_of_moderate ip [] (new start) requests ordered moderate ?_ ?_
  · simp [CountsSent, fresh]
  · simp [fresh]

open Sample in
/-- Requests of the busy address are refused, those of the other one are not. -/
theorem moderate_never_limited_of_busy :
    (busy.zip ((new 0).answers busy)).countP (fun answered => answered.2) = 2 ∧
      ∀ served ∈ busy.zip ((new 0).answers busy),
        served.1.ip = quietClient → served.2 = false := by
  refine ⟨by decide +kernel, moderate_never_limited 0 busy_ordered fun opens => ?_⟩
  have two : busy.countP (fun request => decide (request.ip = quietClient)) = 2 := by
    decide +kernel
  have few : busy.countP (sentIn quietClient opens) ≤
      busy.countP fun request => decide (request.ip = quietClient) := by
    refine List.countP_mono_left fun request _ sent => ?_
    simp only [sentIn, decide_eq_true_eq] at sent ⊢
    exact sent.1
  exact few.trans (two ▸ by decide)

end RateLimiter

end Vtorrent
