import Vtorrent.BanManager
import Vtorrent.MapTrims
import Vtorrent.RetainedState

/-!
# Whether running bans are kept

A new ban replaces the one that an address already has, also when that one lasts longer.  And
the bans are bounded by the number of their entries, expired ones included, so that running
bans are dropped although there are not too many of them.
-/

namespace Vtorrent

open Std FiniteMap

/-- The events that change bans without an operator asking for it. -/
inductive BanEvent where
  | misbehaviour (ip : IpAddr) (offence : Misbehaviour)
  | ban (ip : IpAddr) (reason : String)
  | connectionFailure (ip : IpAddr)
  | connected (ip : IpAddr)
  | prune

namespace BanManager

def perform (manager : BanManager) (event : BanEvent) (now : Nat) : Except Abort BanManager :=
  match event with
  | .misbehaviour ip offence => do
      let (_, next) ← manager.recordMisbehaviour ip offence now
      pure next
  | .ban ip reason => .ok (manager.banIp ip reason now)
  | .connectionFailure ip => do
      let (_, next) ← manager.recordConnectionFailure ip now
      pure next
  | .connected ip => .ok (manager.clearConsecutiveFailures ip)
  | .prune => .ok (manager.prune now)

/-- The bans that have not expired. -/
def running (bans : ExtTreeMap IpAddr BanRecord) (now : Nat) : ExtTreeMap IpAddr BanRecord :=
  bans.filter fun _ ban => !ban.isExpired now

def remainingOf (bans : ExtTreeMap IpAddr BanRecord) (key : IpAddr) (now : Nat) : Nat :=
  (bans[key]?.map fun ban => ban.remaining now).getD 0

/-- The time for which an address is still banned. -/
def remainingBan (manager : BanManager) (ip : IpAddr) (now : Nat) : Nat :=
  remainingOf manager.bans ip.banKey now

def failuresAfter (manager : BanManager) (ip : IpAddr) : UInt32 :=
  manager.consecutiveFailures[ip.banKey]?.getD 0 + 1

/-- The address that an event bans and the record of the ban, if the points or failures of the
address are enough. -/
def newBan (manager : BanManager) (event : BanEvent) (now : Nat) : Option (IpAddr × BanRecord) :=
  match event with
  | .misbehaviour ip offence =>
      if manager.banThreshold ≤ manager.scoreAfter ip offence then
        some (ip.banKey, ⟨now, manager.banDuration, "Score " ++
          toString (manager.scoreAfter ip offence) ++ " >= threshold " ++
          toString manager.banThreshold⟩)
      else none
  | .ban ip reason => some (ip.banKey, ⟨now, manager.banDuration, reason⟩)
  | .connectionFailure ip =>
      if consecutiveFailureThreshold ≤ (manager.failuresAfter ip).toNat then
        some (ip.banKey, ⟨now, escalatingBan (manager.failuresAfter ip),
          toString (manager.failuresAfter ip) ++ " consecutive connection failures"⟩)
      else none
  | .connected _ | .prune => none

/-- The bans with the one that an event records. -/
def bansWith (manager : BanManager) (event : BanEvent) (now : Nat) :
    ExtTreeMap IpAddr BanRecord :=
  match manager.newBan event now with
  | some (key, ban) => manager.bans.insert key ban
  | none => manager.bans

/-- A ban that the event records is not shorter than the running one: the ban for a score or by
hand is the configured one, and the bans for failures in a row are of 5, 15 and 60 minutes. -/
def Outlasts (manager : BanManager) (event : BanEvent) (now : Nat) : Prop :=
  match event with
  | .misbehaviour ip offence => manager.banThreshold ≤ manager.scoreAfter ip offence →
      manager.remainingBan ip now ≤ manager.banDuration
  | .ban ip _ => manager.remainingBan ip now ≤ manager.banDuration
  | .connectionFailure ip =>
      ((manager.failuresAfter ip).toNat = 5 → manager.remainingBan ip now ≤ seconds 300) ∧
        ((manager.failuresAfter ip).toNat = 6 → manager.remainingBan ip now ≤ seconds 900) ∧
        (7 ≤ (manager.failuresAfter ip).toNat → manager.remainingBan ip now ≤ seconds 3600)
  | .connected _ | .prune => True

/-- Where an event records a ban, there are few enough entries not to be bounded, or few enough
running ones not to be affected. -/
def Roomy (manager : BanManager) (event : BanEvent) (now : Nat) : Prop :=
  (manager.newBan event now).isSome = true →
    (manager.bansWith event now).size ≤ maxTrackedPeers ∨
      (running (manager.bansWith event now) now).size ≤ maxTrackedPeers * 3 / 4

section Bounds

variable {bans : ExtTreeMap IpAddr BanRecord} {key : IpAddr} {now : Nat}

theorem remaining_eq_zero_iff {ban : BanRecord} :
    ban.remaining now = 0 ↔ ban.isExpired now = true := by
  rw [BanRecord.isExpired, BanRecord.remaining, decide_eq_true_eq]
  omega

theorem mem_running : key ∈ running bans now ↔ 0 < remainingOf bans key now := by
  rw [ExtTreeMap.mem_iff_isSome_getElem?, running, getElem?_filter, remainingOf]
  cases bans[key]? with
  | none => simp
  | some ban =>
      rw [Option.map_some, Option.getD_some, Nat.pos_iff_ne_zero, Ne, remaining_eq_zero_iff]
      cases expired : ban.isExpired now <;> simp [Option.filter, expired]

theorem remainingOf_running (bans : ExtTreeMap IpAddr BanRecord) (key : IpAddr) (now : Nat) :
    remainingOf (running bans now) key now = remainingOf bans key now := by
  rw [remainingOf, running, getElem?_filter, remainingOf]
  cases bans[key]? with
  | none => rfl
  | some ban =>
      by_cases expired : ban.isExpired now = true
      · simp [Option.filter, expired, remaining_eq_zero_iff.mpr expired]
      · simp [Option.filter, expired]

def bounded (bans : ExtTreeMap IpAddr BanRecord) (now : Nat) : ExtTreeMap IpAddr BanRecord :=
  if bans.size ≤ maxTrackedPeers then bans
  else trim (fun ban => ban.remaining now) bans (bans.size - maxTrackedPeers * 3 / 4)

theorem bans_enforceBanCap (manager : BanManager) (now : Nat) :
    (manager.enforceBanCap now).bans = bounded manager.bans now := by
  rw [enforceBanCap, bounded]
  split
  · rfl
  · simp only [excessKeys, trim, leastKeys, List.length_map, ExtTreeMap.length_toList]

theorem banDuration_enforceBanCap (manager : BanManager) (now : Nat) :
    (manager.enforceBanCap now).banDuration = manager.banDuration := by
  rw [enforceBanCap]
  split <;> rfl

theorem size_bounded (exceeds : maxTrackedPeers < bans.size) :
    (bounded bans now).size = maxTrackedPeers * 3 / 4 := by
  rw [bounded, if_neg (Nat.not_le.mpr exceeds), size_trim _ _ (Nat.sub_le _ _)]
  simp only [maxTrackedPeers] at exceeds ⊢
  omega

/-- A trim that drops a running ban keeps running ones only. -/
theorem size_trim_lt_running {count : Nat}
    (removed : key ∈ leastKeys (fun ban => ban.remaining now) bans count)
    (lasting : 0 < remainingOf bans key now) :
    (trim (fun ban => ban.remaining now) bans count).size < (running bans now).size := by
  obtain ⟨ban, held⟩ : ∃ ban, bans[key]? = some ban := by
    rw [← Option.isSome_iff_exists]
    by_contra absent
    rw [remainingOf, Option.not_isSome_iff_eq_none.mp absent] at lasting
    exact lasting.false
  have covered : ∀ other ∈ (trim (fun ban => ban.remaining now) bans count).insert key ban,
      other ∈ running bans now := by
    intro other listed
    rw [mem_running]
    rcases ExtTreeMap.mem_insert.mp listed with same | listed
    · rwa [← LawfulEqOrd.compare_eq_iff_eq.mp same]
    · obtain ⟨kept, left⟩ := Option.isSome_iff_exists.mp
        (ExtTreeMap.mem_iff_isSome_getElem?.mp listed)
      have longer := rank_le_of_trim removed held left
      rw [remainingOf, held] at lasting
      rw [remainingOf, of_trim left]
      exact lasting.trans_le longer
  have sizes := size_le_of_subset covered
  rwa [ExtTreeMap.size_insert, if_neg] at sizes
  rw [← ExtTreeMap.mem_iff_contains, ExtTreeMap.mem_iff_isSome_getElem?, getElem?_trim,
    if_pos removed]
  exact Bool.false_ne_true

/-- Few running bans are not affected by the bound: the expired ones go first. -/
theorem remainingOf_bounded
    (roomy : bans.size ≤ maxTrackedPeers ∨ (running bans now).size ≤ maxTrackedPeers * 3 / 4)
    (key : IpAddr) : remainingOf (bounded bans now) key now = remainingOf bans key now := by
  by_cases few : bans.size ≤ maxTrackedPeers
  · rw [bounded, if_pos few]
  · have size := @size_bounded _ now (Nat.not_le.mp few)
    have scarce := roomy.resolve_left few
    rw [bounded, if_neg few] at size ⊢
    rw [remainingOf, getElem?_trim]
    split
    · rename_i removed
      by_contra lasting
      have more := size_trim_lt_running removed (Nat.pos_of_ne_zero fun none => lasting none.symm)
      omega
    · rfl

/-- Too many entries, expired ones included, with too many running bans among them: a running
ban is dropped, and not only the one of a given address. -/
theorem exists_dropped (exceeds : maxTrackedPeers < bans.size)
    (crowded : maxTrackedPeers * 3 / 4 + 1 < (running bans now).size) (key : IpAddr) :
    ∃ other, other ≠ key ∧ 0 < remainingOf bans other now ∧
      remainingOf (bounded bans now) other now = 0 := by
  by_contra none
  have covered : ∀ other ∈ (running bans now).erase key, other ∈ bounded bans now := by
    intro other listed
    rw [ExtTreeMap.mem_erase] at listed
    by_contra missing
    refine none ⟨other, ?_, mem_running.mp listed.2, ?_⟩
    · rintro rfl
      exact listed.1 (LawfulEqOrd.compare_eq_iff_eq.mpr rfl)
    · rw [ExtTreeMap.mem_iff_isSome_getElem?, Bool.not_eq_true, Option.isSome_eq_false_iff,
        Option.isNone_iff_eq_none] at missing
      rw [remainingOf, missing]
      rfl
  have sizes := size_le_of_subset covered
  rw [ExtTreeMap.size_erase, size_bounded exceeds] at sizes
  split at sizes <;> omega

end Bounds

section Step

variable {manager next : BanManager} {event : BanEvent} {now : Nat}

theorem checkedSucc32_eq_ok {number result : UInt32}
    (counted : checkedSucc32 number = .ok result) : result = number + 1 := by
  rw [checkedSucc32] at counted
  split at counted
  · exact (Except.ok.inj counted).symm
  · cases counted

/-- An event that records a ban bounds the bans with it; another one leaves them, or drops the
expired ones and bounds the others. -/
theorem bans_perform (performed : manager.perform event now = .ok next) :
    ((manager.newBan event now).isSome = true ∧
        next.bans = bounded (manager.bansWith event now) now) ∨
      manager.newBan event now = none ∧
        (next.bans = manager.bans ∨ next.bans = bounded (running manager.bans now) now) := by
  rw [bansWith]
  cases event with
  | misbehaviour ip offence =>
      obtain ⟨⟨_, after⟩, recorded, performed⟩ := Checked.bind_eq_ok.mp performed
      obtain rfl := Except.ok.inj performed
      obtain ⟨offences, _, recorded⟩ := Checked.bind_eq_ok.mp recorded
      rw [newBan]
      split at recorded
      · rename_i reached
        obtain ⟨_, rfl⟩ := Prod.mk.inj (Except.ok.inj recorded)
        rw [if_pos reached, banIp, IpAddr.banKey_banKey]
        exact .inl ⟨rfl, bans_enforceBanCap _ _⟩
      · rename_i below
        obtain ⟨_, rfl⟩ := Prod.mk.inj (Except.ok.inj recorded)
        rw [if_neg below]
        exact .inr ⟨rfl, .inl rfl⟩
  | ban ip reason =>
      obtain rfl := Except.ok.inj performed
      exact .inl ⟨rfl, bans_enforceBanCap _ _⟩
  | connectionFailure ip =>
      obtain ⟨⟨_, after⟩, recorded, performed⟩ := Checked.bind_eq_ok.mp performed
      obtain rfl := Except.ok.inj performed
      obtain ⟨count, counted, recorded⟩ := Checked.bind_eq_ok.mp recorded
      obtain rfl : count = manager.failuresAfter ip := checkedSucc32_eq_ok counted
      rw [newBan]
      split at recorded
      · rename_i reached
        obtain ⟨_, rfl⟩ := Prod.mk.inj (Except.ok.inj recorded)
        rw [if_pos reached]
        exact .inl ⟨rfl, bans_enforceBanCap _ _⟩
      · rename_i below
        obtain ⟨_, rfl⟩ := Prod.mk.inj (Except.ok.inj recorded)
        rw [if_neg below]
        exact .inr ⟨rfl, .inl rfl⟩
  | connected ip =>
      obtain rfl := Except.ok.inj performed
      exact .inr ⟨rfl, .inl rfl⟩
  | prune =>
      obtain rfl := Except.ok.inj performed
      exact .inr ⟨rfl, .inr (bans_enforceBanCap _ _)⟩

theorem banKey_and_remaining_newBan {key : IpAddr} {ban : BanRecord}
    (banned : manager.newBan event now = some (key, ban)) :
    key.banKey = key ∧ ban.remaining now = ban.duration := by
  cases event with
  | ban ip reason =>
      cases banned
      simp [BanRecord.remaining]
  | misbehaviour | connectionFailure =>
      rw [newBan] at banned
      split at banned
      · cases banned
        simp [BanRecord.remaining]
      · cases banned
  | connected | prune => cases banned

theorem escalatingBan_le_iff {failures : UInt32} {time : Nat}
    (reached : consecutiveFailureThreshold ≤ failures.toNat) :
    time ≤ escalatingBan failures ↔
      (failures.toNat = 5 → time ≤ seconds 300) ∧ (failures.toNat = 6 → time ≤ seconds 900) ∧
        (7 ≤ failures.toNat → time ≤ seconds 3600) := by
  have threshold : consecutiveFailureThreshold = 5 := rfl
  rw [escalatingBan, threshold]
  rcases (by omega : failures.toNat = 5 ∨ failures.toNat = 6 ∨ 7 ≤ failures.toNat) with
    five | six | more
  · simp [five]
  · simp [six]
  · rw [Nat.min_eq_right (by omega)]
    have others : failures.toNat ≠ 5 ∧ failures.toNat ≠ 6 := by omega
    simp [more, others]

/-- The condition says that a recorded ban is as long as what is left of the old one. -/
theorem outlasts_iff : manager.Outlasts event now ↔
    ∀ key ban, manager.newBan event now = some (key, ban) →
      remainingOf manager.bans key now ≤ ban.duration := by
  cases event with
  | misbehaviour ip offence =>
      rw [Outlasts, newBan]
      split
      · rename_i reached
        simp [reached, remainingBan]
      · rename_i below
        simp [below]
  | ban ip reason => simp [Outlasts, newBan, remainingBan]
  | connectionFailure ip =>
      rw [Outlasts, newBan]
      split
      · rename_i reached
        rw [← escalatingBan_le_iff reached]
        simp [remainingBan]
      · rename_i below
        have threshold : consecutiveFailureThreshold = 5 := rfl
        rw [threshold] at below
        refine iff_of_true ⟨?_, ?_, ?_⟩ (by simp) <;> intro count <;> omega
  | connected | prune => simp [Outlasts, newBan]

theorem remainingOf_bansWith {key : IpAddr} {ban : BanRecord}
    (banned : manager.newBan event now = some (key, ban)) (other : IpAddr) :
    remainingOf (manager.bansWith event now) other now =
      if other = key then ban.duration else remainingOf manager.bans other now := by
  rw [bansWith, banned, remainingOf]
  dsimp only
  split
  · rename_i same
    rw [same, ExtTreeMap.getElem?_insert_self, Option.map_some, Option.getD_some,
      (banKey_and_remaining_newBan banned).2]
  · rename_i different
    rw [getElem?_insert_of_ne different, remainingOf]

/-- An event leaves all running bans when its own ban outlasts the old one and the bound does not
reach them. -/
theorem remainingBan_le_perform (performed : manager.perform event now = .ok next)
    (few : (running (manager.bansWith event now) now).size ≤ maxTrackedPeers)
    (outlasts : manager.Outlasts event now) (roomy : manager.Roomy event now) (ip : IpAddr) :
    manager.remainingBan ip now ≤ next.remainingBan ip now := by
  rw [remainingBan, remainingBan]
  rcases bans_perform performed with ⟨recorded, bans⟩ | ⟨unbanned, same | bans⟩
  · obtain ⟨⟨key, ban⟩, banned⟩ := Option.isSome_iff_exists.mp recorded
    rw [bans, remainingOf_bounded (roomy recorded), remainingOf_bansWith banned]
    split
    · rename_i here
      rw [here]
      exact outlasts_iff.mp outlasts key ban banned
    · exact le_rfl
  · rw [same]
  · have kept : running (running manager.bans now) now = running manager.bans now := by
      apply ExtTreeMap.ext_getElem?
      intro key
      simp only [running, getElem?_filter, Option.filter_filter, Bool.and_self]
    rw [bansWith, unbanned] at few
    rw [bans, remainingOf_bounded (.inl few), remainingOf_running]

/-- With few enough entries, an event that leaves all running bans outlasts the old one. -/
theorem outlasts_of_remainingBan_le (performed : manager.perform event now = .ok next)
    (few : (manager.bansWith event now).size ≤ maxTrackedPeers)
    (kept : ∀ ip, manager.remainingBan ip now ≤ next.remainingBan ip now) :
    manager.Outlasts event now := by
  refine outlasts_iff.mpr fun key ban banned => ?_
  rcases bans_perform performed with ⟨-, bans⟩ | ⟨unbanned, -⟩
  · have here := kept key
    rwa [remainingBan, remainingBan, (banKey_and_remaining_newBan banned).1, bans,
      remainingOf_bounded (.inl few), remainingOf_bansWith banned, if_pos rfl] at here
  · rw [unbanned] at banned
    cases banned

/-- With too many entries and too many running bans among them, an event that records a ban
drops the running ban of another address. -/
theorem exists_lifted (performed : manager.perform event now = .ok next)
    (normal : ∀ key ∈ manager.bans, key.banKey = key)
    (recorded : (manager.newBan event now).isSome = true)
    (exceeds : maxTrackedPeers < (manager.bansWith event now).size)
    (crowded : maxTrackedPeers * 3 / 4 + 1 < (running (manager.bansWith event now) now).size) :
    ∃ ip, next.remainingBan ip now < manager.remainingBan ip now := by
  obtain ⟨⟨key, ban⟩, banned⟩ := Option.isSome_iff_exists.mp recorded
  obtain ⟨other, different, lasting, dropped⟩ := exists_dropped exceeds crowded key
  rw [remainingOf_bansWith banned, if_neg different] at lasting
  have listed : other ∈ manager.bans := by
    rw [ExtTreeMap.mem_iff_isSome_getElem?]
    by_contra missing
    rw [Bool.not_eq_true, Option.isSome_eq_false_iff, Option.isNone_iff_eq_none] at missing
    rw [remainingOf, missing] at lasting
    exact absurd lasting (by simp)
  refine ⟨other, ?_⟩
  rcases bans_perform performed with ⟨-, bans⟩ | ⟨unbanned, -⟩
  · rw [remainingBan, remainingBan, normal other listed, bans, dropped]
    exact lasting
  · rw [unbanned] at banned
    cases banned

end Step

/-- Some events in the order of their clock readings, with at most as many banned addresses as
are kept, each of which leaves the running bans. -/
inductive BanRun : BanManager → Nat → BanManager → Nat → Prop
  | refl (manager : BanManager) (now : Nat) : BanRun manager now manager now
  | step {first last next : BanManager} {start stop now : Nat} {event : BanEvent}
      (run : BanRun first start last stop) (later : stop ≤ now)
      (performed : last.perform event now = .ok next)
      (few : (running (last.bansWith event now) now).size ≤ maxTrackedPeers)
      (outlasts : last.Outlasts event now) (roomy : last.Roomy event now) :
      BanRun first start next now

theorem remainingBan_later (manager : BanManager) (ip : IpAddr) {now later : Nat}
    (order : now ≤ later) :
    manager.remainingBan ip now ≤ manager.remainingBan ip later + (later - now) := by
  rw [remainingBan, remainingBan, remainingOf, remainingOf]
  cases manager.bans[ip.banKey]? with
  | none => simp
  | some ban =>
      simp only [Option.map_some, Option.getD_some, BanRecord.remaining]
      omega

theorem isBanned_iff (manager : BanManager) (ip : IpAddr) (now : Nat) :
    manager.isBanned ip now = true ↔ 0 < manager.remainingBan ip now := by
  rw [isBanned, remainingBan, remainingOf]
  cases manager.bans[ip.banKey]? with
  | none => simp
  | some ban =>
      simp only [BanRecord.isExpired, BanRecord.remaining, Option.map_some, Option.getD_some,
        Bool.not_eq_true', decide_eq_false_iff_not]
      omega

theorem BanRun.remainingBan_le {first last : BanManager} {start stop : Nat}
    (run : BanRun first start last stop) :
    start ≤ stop ∧ ∀ ip, first.remainingBan ip start ≤
      last.remainingBan ip stop + (stop - start) := by
  induction run with
  | refl => exact ⟨le_rfl, fun ip => by omega⟩
  | step run later performed few outlasts roomy ih =>
      rename_i middle next start stop now event
      obtain ⟨order, kept⟩ := ih
      refine ⟨order.trans later, fun ip => ?_⟩
      have before := kept ip
      have waited := middle.remainingBan_later ip later
      have after := remainingBan_le_perform performed few outlasts roomy ip
      omega

end BanManager

open BanManager

/-- Along events whose bans outlast the ones they replace, and which are recorded while the bound
on the bans does not reach running ones, an address stays banned for as long as it was.  Both
conditions are needed: with few entries an event that leaves all running bans meets the first,
and with too many entries, of which too many run, it lifts the ban of another address. -/
theorem running_bans_kept (manager : BanManager) (now : Nat) :
    (∀ (last : BanManager) (stop : Nat), BanRun manager now last stop →
      ∀ (ip : IpAddr) (later : Nat), stop ≤ later → later < now + manager.remainingBan ip now →
        last.isBanned ip later = true) ∧
    ∀ (next : BanManager) (event : BanEvent), manager.perform event now = .ok next →
      ((manager.bansWith event now).size ≤ maxTrackedPeers →
        ((∀ ip, manager.remainingBan ip now ≤ next.remainingBan ip now) ↔
          manager.Outlasts event now)) ∧
      ((∀ key ∈ manager.bans, key.banKey = key) → (manager.newBan event now).isSome = true →
        maxTrackedPeers < (manager.bansWith event now).size →
        maxTrackedPeers * 3 / 4 + 1 < (running (manager.bansWith event now) now).size →
          ∃ ip, next.remainingBan ip now < manager.remainingBan ip now) := by
  refine ⟨?_, fun next event performed => ⟨fun few => ⟨?_, ?_⟩, ?_⟩⟩
  · intro last stop run ip later after within
    obtain ⟨order, kept⟩ := run.remainingBan_le
    have here := kept ip
    have waited := last.remainingBan_later ip after
    rw [isBanned_iff]
    omega
  · exact outlasts_of_remainingBan_le performed few
  · intro outlasts
    exact remainingBan_le_perform performed (ExtTreeMap.size_filter_le_size.trans few) outlasts
      fun _ => .inl few
  · exact exists_lifted performed

namespace Bans

def peer : IpAddr := .v4 ⟨[10, 0, 0, 1], rfl⟩

def dayBan : BanManager := (BanManager.new 100 (seconds 86400)).banIp peer "invalid block" 0

theorem dayBan_remaining :
    dayBan.remainingBan peer 0 = seconds 86400 ∧
      dayBan.remainingBan peer (seconds 10) ≤ dayBan.banDuration ∧
      (dayBan.bansWith (.ban peer "again") (seconds 10)).size = 1 := by
  decide

def failing : Except Abort BanManager :=
  [BanEvent.ban peer "invalid block", .connectionFailure peer, .connectionFailure peer,
    .connectionFailure peer, .connectionFailure peer, .connectionFailure peer].foldlM
      (fun manager event => manager.perform event 0) (BanManager.new 100 (seconds 86400))

def addressOf (number : Nat) : IpAddr := .v4 ⟨leBytes 4 number, by simp⟩

theorem addressOf_injective {first second : Nat} (small : first < 50001) (small' : second < 50001)
    (same : addressOf first = addressOf second) : first = second := by
  have bytes := congrArg IpAddr.octets same
  exact leBytes_injective (by omega) (by omega) bytes

/-- Bans by hand of different addresses for a day each, the first ten thousand of them a day
before the others. -/
def crowd (count : Nat) : BanManager :=
  (List.range count).foldl (fun manager number => manager.banIp (addressOf number) ""
    (if number < 10000 then 0 else seconds 86400)) (BanManager.new 100 (seconds 86400))

theorem isExpired_first : BanRecord.isExpired ⟨0, seconds 86400, ""⟩ (seconds 86400) = true :=
  decide_eq_true (Nat.sub_zero _).ge

theorem isExpired_later :
    BanRecord.isExpired ⟨seconds 86400, seconds 86400, ""⟩ (seconds 86400) = false :=
  decide_eq_false (by rw [Nat.sub_self]; decide)

/-- What a manager with so many bans holds when the first ones have expired. -/
structure Holds (bans : ExtTreeMap IpAddr BanRecord) (count : Nat) : Prop where
  size : bans.size = count
  running : (running bans (seconds 86400)).size = count - 10000
  known : ∀ key ∈ bans, ∃ number < count, key = addressOf number

theorem Holds.insert {bans : ExtTreeMap IpAddr BanRecord} {count : Nat} (holds : Holds bans count)
    (small : count < 50001) :
    Holds (bans.insert (addressOf count) ⟨if count < 10000 then 0 else seconds 86400,
      seconds 86400, ""⟩) (count + 1) := by
  have fresh : addressOf count ∉ bans := by
    intro listed
    obtain ⟨number, below, same⟩ := holds.known _ listed
    have := addressOf_injective small (by omega) same
    omega
  refine ⟨?_, ?_, ?_⟩
  · rw [ExtTreeMap.size_insert, if_neg (by simpa using fresh), holds.size]
  · have before := holds.running
    rw [BanManager.running] at before ⊢
    rw [size_filter_insert _ fresh, before]
    by_cases early : count < 10000
    · rw [if_pos early, isExpired_first, if_neg (by decide)]
      omega
    · rw [if_neg early, isExpired_later, if_pos (by decide)]
      omega
  · intro key listed
    rw [ExtTreeMap.mem_insert] at listed
    rcases listed with same | listed
    · exact ⟨count, Nat.lt_succ_self _, (LawfulEqOrd.compare_eq_iff_eq.mp same).symm⟩
    · obtain ⟨number, below, same⟩ := holds.known key listed
      exact ⟨number, by omega, same⟩

theorem holds_crowd {count : Nat} (few : count ≤ maxTrackedPeers) :
    Holds (crowd count).bans count ∧ (crowd count).banDuration = seconds 86400 := by
  induction count with
  | zero =>
      refine ⟨⟨rfl, rfl, fun key listed => ?_⟩, rfl⟩
      exact absurd listed (by simp [crowd, BanManager.new])
  | succ count ih =>
      obtain ⟨holds, duration⟩ := ih (by omega)
      have limit : maxTrackedPeers = 50000 := rfl
      have after := holds.insert (by omega)
      rw [crowd, List.range_succ, List.foldl_append, ← crowd, List.foldl_cons, List.foldl_nil,
        banIp, duration, insertBan]
      refine ⟨?_, ?_⟩
      · rw [bans_enforceBanCap, bounded, if_pos]
        · exact after
        · exact after.size.trans_le few
      · exact (banDuration_enforceBanCap _ _).trans duration

theorem crowd_lifts : ∃ ip,
    ((crowd 50000).banIp (addressOf 50000) "" (seconds 86400)).remainingBan ip (seconds 86400) <
      (crowd 50000).remainingBan ip (seconds 86400) := by
  obtain ⟨holds, duration⟩ := holds_crowd (show 50000 ≤ maxTrackedPeers from le_rfl)
  have after := holds.insert (by decide)
  have recorded : (crowd 50000).bansWith (.ban (addressOf 50000) "") (seconds 86400) =
      (crowd 50000).bans.insert (addressOf 50000) ⟨seconds 86400, seconds 86400, ""⟩ := by
    rw [bansWith, newBan, duration]
    rfl
  rw [if_neg (by decide)] at after
  refine @exists_lifted (crowd 50000) _ (.ban (addressOf 50000) "") (seconds 86400) rfl ?_ rfl
    ?_ ?_
  · intro key listed
    obtain ⟨number, -, rfl⟩ := holds.known key listed
    rfl
  · rw [recorded, after.size]
    decide
  · rw [recorded, after.running]
    decide

end Bans

open Bans in
/-- A second ban of the same length keeps the first one running for its day. -/
theorem day_ban_kept :
    (dayBan.banIp peer "again" (seconds 10)).isBanned peer (seconds 86399) = true := by
  obtain ⟨lasting, outlasts, single⟩ := dayBan_remaining
  have few : (dayBan.bansWith (.ban peer "again") (seconds 10)).size ≤ maxTrackedPeers := by
    rw [single]
    decide
  refine (running_bans_kept dayBan 0).1 _ (seconds 10) (.step (.refl dayBan 0) (Nat.zero_le _) rfl
    (ExtTreeMap.size_filter_le_size.trans few) outlasts fun _ => .inl few) peer _ (by decide) ?_
  rw [lasting]
  decide

open Bans in
/-- A ban for a day is cut down to five minutes by five failed connections.  And where 40000 bans
run beside 10000 entries that have expired, one more ban lifts a running one. -/
theorem running_bans_lost :
    (dayBan.remainingBan peer 0 = seconds 86400 ∧
      failing.map (fun manager => manager.remainingBan peer 0) = .ok (seconds 300) ∧
      failing.map (fun manager => manager.isBanned peer (seconds 301)) = .ok false) ∧
    (running (crowd 50000).bans (seconds 86400)).size = 40000 ∧
      ∃ ip, ((crowd 50000).banIp (addressOf 50000) "" (seconds 86400)).remainingBan ip
          (seconds 86400) < (crowd 50000).remainingBan ip (seconds 86400) :=
  ⟨⟨dayBan_remaining.1, by decide⟩,
    (holds_crowd (show 50000 ≤ maxTrackedPeers from le_rfl)).1.running, crowd_lifts⟩

end Vtorrent
