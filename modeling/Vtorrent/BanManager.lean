import Vtorrent.FileLayouts
import Vtorrent.FiniteMapFilters
import Vtorrent.Primitives

/-!
# Bans of misbehaving peers

Peers collect points for misbehaviour and are banned when they have too many, or when they fail
to connect several times in a row.  Scores and bans are kept under a normalised address.
Durations are in nanoseconds, and a call reads the clock once.
-/

namespace Vtorrent

open Std

inductive IpAddr where
  | v4 (octets : ByteVector 4)
  | v6 (octets : ByteVector 16)
  deriving DecidableEq

namespace IpAddr

def octets : IpAddr → Bytes
  | v4 octets => octets.toList
  | v6 octets => octets.toList

theorem octets_injective : Function.Injective octets := by
  intro first second same
  have lengths := congrArg List.length same
  cases first <;> cases second <;> simp only [octets, List.Vector.toList_length] at lengths
  · exact congrArg v4 (Subtype.ext same)
  · omega
  · omega
  · exact congrArg v6 (Subtype.ext same)

instance : Ord IpAddr := ⟨compareOn octets⟩

instance : TransOrd IpAddr := inferInstanceAs (TransCmp (compareOn octets))

instance : LawfulEqOrd IpAddr where
  eq_of_compare equal := octets_injective (LawfulEqOrd.eq_of_compare equal)

/-- The address of a mapped address, otherwise its network of 64 bits. -/
def ofV6 (octets : ByteVector 16) : IpAddr :=
  if octets.toList.take 12 = List.replicate 10 0 ++ [0xff, 0xff] then
    v4 ⟨octets.toList.drop 12, by simp⟩
  else v6 ⟨octets.toList.take 8 ++ List.replicate 8 0, by simp⟩

/-- `ban_key`. -/
def banKey : IpAddr → IpAddr
  | v4 octets => v4 octets
  | v6 octets => ofV6 octets

theorem banKey_ofV6 (octets : ByteVector 16) : (ofV6 octets).banKey = ofV6 octets := by
  rw [ofV6]
  split
  · rfl
  · have length : (octets.toList.take 8).length = 8 := by simp
    have unmapped : (octets.toList.take 8 ++ List.replicate 8 (0 : UInt8)).take 12 ≠
        List.replicate 10 0 ++ [0xff, 0xff] := by
      intro same
      have last := congrArg (fun bytes : Bytes => bytes[11]?) same
      simp [length] at last
    refine (if_neg unmapped).trans (congrArg v6 (Subtype.ext ?_))
    change (octets.toList.take 8 ++ List.replicate 8 (0 : UInt8)).take 8 ++ _ = _
    rw [List.take_append_of_le_length (by omega), List.take_take]
    rfl

@[simp]
theorem banKey_banKey (ip : IpAddr) : ip.banKey.banKey = ip.banKey := by
  cases ip with
  | v4 octets => rfl
  | v6 octets => exact banKey_ofV6 octets

end IpAddr

inductive Misbehaviour where
  | invalidBlockHeader
  | invalidBlock
  | invalidTransaction
  | duplicateInv
  | oversizedMessage
  | malformedMessage
  | invalidPeerAddr
  | bloomFilterTooLarge
  | staleBlock
  | unknownMessage
  | custom (score : UInt32)

def Misbehaviour.score : Misbehaviour → UInt32
  | invalidBlockHeader | invalidBlock | oversizedMessage | malformedMessage => 20
  | invalidTransaction | bloomFilterTooLarge => 10
  | duplicateInv | staleBlock => 5
  | invalidPeerAddr => 2
  | unknownMessage => 1
  | custom score => score

def seconds (count : Nat) : Nat := count * 10 ^ 9

def consecutiveFailureThreshold : Nat := 5
def maxTrackedPeers : Nat := 50000

structure BanRecord where
  bannedAt : Nat
  duration : Nat
  reason : String

namespace BanRecord

def remaining (ban : BanRecord) (now : Nat) : Nat := ban.duration - (now - ban.bannedAt)

def isExpired (ban : BanRecord) (now : Nat) : Bool := decide (ban.duration ≤ now - ban.bannedAt)

end BanRecord

structure PeerScore where
  score : UInt32
  offenceCount : UInt32
  lastSeen : Nat

structure BanManager where
  scores : ExtTreeMap IpAddr PeerScore
  bans : ExtTreeMap IpAddr BanRecord
  banThreshold : UInt32
  banDuration : Nat
  consecutiveFailures : ExtTreeMap IpAddr UInt32

/-- Arithmetic in `u32` with overflow checks. -/
def checkedSucc32 (number : UInt32) : Except Abort UInt32 :=
  if number.toNat + 1 < 2 ^ 32 then .ok (number + 1) else .error .overflow

def escalatingBan (failures : UInt32) : Nat :=
  seconds ([5 * 60, 15 * 60, 60 * 60].getD
    (min (failures.toNat - consecutiveFailureThreshold) 2) 0)

namespace BanManager

def new (banThreshold : UInt32) (banDuration : Nat) : BanManager :=
  ⟨∅, ∅, banThreshold, banDuration, ∅⟩

/-- The least of some entries, as many as are above three quarters of the limit. -/
def excessKeys (entries : List (IpAddr × Nat)) : List IpAddr :=
  let sorted := entries.mergeSort fun first second => first.2 ≤ second.2
  (sorted.take (entries.length - maxTrackedPeers * 3 / 4)).map Prod.fst

/-- Bound the bans; those closest to their end go first. -/
def enforceBanCap (manager : BanManager) (now : Nat) : BanManager :=
  if manager.bans.size ≤ maxTrackedPeers then manager
  else
    let entries := manager.bans.toList.map fun entry => (entry.1, entry.2.remaining now)
    { manager with
      bans := (excessKeys entries).foldl (fun bans key => bans.erase key) manager.bans }

def insertBan (manager : BanManager) (key : IpAddr) (ban : BanRecord) (now : Nat) : BanManager :=
  enforceBanCap { manager with
    bans := manager.bans.insert key ban
    scores := manager.scores.erase key } now

def banIp (manager : BanManager) (ip : IpAddr) (reason : String) (now : Nat) : BanManager :=
  manager.insertBan ip.banKey ⟨now, manager.banDuration, reason⟩ now

def scoreAfter (manager : BanManager) (ip : IpAddr) (offence : Misbehaviour) : UInt32 :=
  let score := (manager.scores[ip.banKey]?.map PeerScore.score).getD 0
  UInt32.ofNat (min (score.toNat + offence.score.toNat) (2 ^ 32 - 1))

def recordMisbehaviour (manager : BanManager) (ip : IpAddr) (offence : Misbehaviour) (now : Nat) :
    Except Abort (Bool × BanManager) := do
  let key := ip.banKey
  let newScore := manager.scoreAfter ip offence
  let offences ← checkedSucc32 ((manager.scores[key]?.map PeerScore.offenceCount).getD 0)
  let scored := { manager with scores := manager.scores.insert key ⟨newScore, offences, now⟩ }
  if manager.banThreshold ≤ newScore then
    pure (true, scored.banIp key ("Score " ++ toString newScore ++ " >= threshold " ++
      toString manager.banThreshold) now)
  else pure (false, scored)

def recordConnectionFailure (manager : BanManager) (ip : IpAddr) (now : Nat) :
    Except Abort (Bool × BanManager) := do
  let key := ip.banKey
  let count ← checkedSucc32 (manager.consecutiveFailures[key]?.getD 0)
  let counted := { manager with
    consecutiveFailures := manager.consecutiveFailures.insert key count }
  if consecutiveFailureThreshold ≤ count.toNat then
    pure (true, counted.insertBan key ⟨now, escalatingBan count,
      toString count ++ " consecutive connection failures"⟩ now)
  else pure (false, counted)

def clearConsecutiveFailures (manager : BanManager) (ip : IpAddr) : BanManager :=
  { manager with consecutiveFailures := manager.consecutiveFailures.erase ip.banKey }

def isBanned (manager : BanManager) (ip : IpAddr) (now : Nat) : Bool :=
  match manager.bans[ip.banKey]? with
  | some ban => !ban.isExpired now
  | none => false

/-- Old scores are halved, and those that reach zero are dropped. -/
def decayScores (scores : ExtTreeMap IpAddr PeerScore) (now : Nat) :
    ExtTreeMap IpAddr PeerScore :=
  (scores.map fun _ peer =>
    if seconds 3600 ≤ now - peer.lastSeen then { peer with score := peer.score / 2 }
    else peer).filter fun _ peer => decide (0 < peer.score)

/-- Bound the scores; those seen longest ago go first. -/
def boundScores (scores : ExtTreeMap IpAddr PeerScore) : ExtTreeMap IpAddr PeerScore :=
  if maxTrackedPeers < scores.size then
    (excessKeys (scores.toList.map fun entry => (entry.1, entry.2.lastSeen))).foldl
      (fun scores key => scores.erase key) scores
  else scores

def prune (manager : BanManager) (now : Nat) : BanManager :=
  let kept := enforceBanCap { manager with
    bans := manager.bans.filter fun _ ban => !ban.isExpired now
    scores := boundScores (decayScores manager.scores now) } now
  { kept with consecutiveFailures := kept.consecutiveFailures.filter fun ip _ =>
      kept.bans.contains ip || kept.scores.contains ip }

end BanManager

end Vtorrent
