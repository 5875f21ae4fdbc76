import Vtorrent.FiniteMapFilters
import Vtorrent.Metainfo

/-!
# Torrent sessions and their incentive accounts

A session counts the bytes it exchanges and keeps an account of them for each peer.  A settlement
turns the bytes since the last one into amounts earned and owed.  When there are too many
accounts, stale ones are dropped.
-/

namespace Vtorrent

open Std FiniteMap

def gigabyte : Nat := 1024 * 1024 * 1024

def vtrCoin : Nat := 100000000

structure PeerBandwidthAccount where
  peerAddress : String
  bytesUploaded : UInt64
  bytesDownloaded : UInt64
  totalEarnedSatoshis : UInt64
  totalPaidSatoshis : UInt64
  lastSettlement : UInt64
  lastActive : UInt64
  incentiveEnabled : Bool
  deriving DecidableEq

namespace PeerBandwidthAccount

def new (peerAddress : String) : PeerBandwidthAccount where
  peerAddress := peerAddress
  bytesUploaded := 0
  bytesDownloaded := 0
  totalEarnedSatoshis := 0
  totalPaidSatoshis := 0
  lastSettlement := 0
  lastActive := 0
  incentiveEnabled := true

def recordUpload (account : PeerBandwidthAccount) (bytes : UInt64) : PeerBandwidthAccount :=
  { account with bytesUploaded := saturatingAdd account.bytesUploaded bytes }

def recordDownload (account : PeerBandwidthAccount) (bytes : UInt64) : PeerBandwidthAccount :=
  { account with bytesDownloaded := saturatingAdd account.bytesDownloaded bytes }

def touch (account : PeerBandwidthAccount) (timestamp : UInt64) : PeerBandwidthAccount :=
  { account with lastActive := timestamp }

/-- What we should receive for our uploads: one coin for each gigabyte. -/
def calculateEarned (account : PeerBandwidthAccount) : UInt64 :=
  if !account.incentiveEnabled then 0
  else UInt64.ofNat (account.bytesUploaded.toNat * vtrCoin / gigabyte)

/-- What we owe for our downloads: half a coin for each gigabyte. -/
def calculateOwed (account : PeerBandwidthAccount) : UInt64 :=
  if !account.incentiveEnabled then 0
  else UInt64.ofNat (account.bytesDownloaded.toNat * (vtrCoin / 2) / gigabyte)

/-- `settle`: what was earned and what is owed, and the account afterwards. -/
def settle (account : PeerBandwidthAccount) (currentTimestamp : UInt64) :
    (UInt64 × UInt64) × PeerBandwidthAccount :=
  let earned := account.calculateEarned
  let owed := account.calculateOwed
  ((earned, owed), { account with
    totalEarnedSatoshis := saturatingAdd account.totalEarnedSatoshis earned
    totalPaidSatoshis := saturatingAdd account.totalPaidSatoshis owed
    bytesUploaded := 0
    bytesDownloaded := 0
    lastSettlement := currentTimestamp })

end PeerBandwidthAccount

structure IncentiveSummary where
  totalEarnedSatoshis : UInt64
  totalPaidSatoshis : UInt64
  pendingEarnedSatoshis : UInt64
  pendingOwedSatoshis : UInt64
  totalBytesUploaded : UInt64
  totalBytesDownloaded : UInt64
  incentivePeerCount : Nat
  deriving DecidableEq

namespace IncentiveSummary

def empty : IncentiveSummary := ⟨0, 0, 0, 0, 0, 0, 0⟩

def addAccount (summary : IncentiveSummary) (account : PeerBandwidthAccount) :
    IncentiveSummary where
  totalEarnedSatoshis := saturatingAdd summary.totalEarnedSatoshis account.totalEarnedSatoshis
  totalPaidSatoshis := saturatingAdd summary.totalPaidSatoshis account.totalPaidSatoshis
  pendingEarnedSatoshis := saturatingAdd summary.pendingEarnedSatoshis account.calculateEarned
  pendingOwedSatoshis := saturatingAdd summary.pendingOwedSatoshis account.calculateOwed
  totalBytesUploaded := saturatingAdd summary.totalBytesUploaded account.bytesUploaded
  totalBytesDownloaded := saturatingAdd summary.totalBytesDownloaded account.bytesDownloaded
  incentivePeerCount := summary.incentivePeerCount + if account.incentiveEnabled then 1 else 0

end IncentiveSummary

/-- `aggregate_summary`. -/
def aggregateSummary (accounts : List PeerBandwidthAccount) : IncentiveSummary :=
  accounts.foldl IncentiveSummary.addAccount .empty

inductive SessionState
  | queued
  | connecting
  | downloading
  | seeding
  | paused
  | error
  | stopped
  deriving DecidableEq

def SessionState.isTerminal : SessionState → Bool
  | .seeding | .error | .stopped => true
  | _ => false

structure TorrentSession where
  id : String
  state : SessionState
  bytesDownloaded : UInt64
  bytesUploaded : UInt64
  incentiveAccounts : ExtTreeMap String PeerBandwidthAccount
  lastActive : UInt64

def maxIncentiveAccounts : Nat := 10000

namespace TorrentSession

def new (id : String) (now : UInt64) : TorrentSession := ⟨id, .queued, 0, 0, ∅, now⟩

def incentiveSummary (session : TorrentSession) : IncentiveSummary :=
  aggregateSummary (values session.incentiveAccounts)

/-- Whether bytes were exchanged since the last settlement. -/
def unsettled (account : PeerBandwidthAccount) : Bool :=
  decide (0 < account.bytesUploaded) || decide (0 < account.bytesDownloaded)

def disposable (account : PeerBandwidthAccount) : Bool :=
  account.bytesUploaded == 0 && account.bytesDownloaded == 0 &&
    account.totalEarnedSatoshis == account.totalPaidSatoshis

/-- `evict_stale_accounts`. -/
def evictStaleAccounts (session : TorrentSession) : TorrentSession :=
  if session.incentiveAccounts.size ≤ maxIncentiveAccounts then session
  else
    let active := session.incentiveAccounts.filter fun _ account => unsettled account
    if active.size ≤ maxIncentiveAccounts then { session with incentiveAccounts := active }
    else
      let entries := active.toList.insertionSort fun first second =>
        first.2.lastActive ≤ second.2.lastActive
      let excess := entries.length - maxIncentiveAccounts * 3 / 4
      let toRemove := ((entries.filter fun entry => disposable entry.2).take excess).map Prod.fst
      let kept := toRemove.foldl (fun accounts address => accounts.erase address) active
      { session with incentiveAccounts := kept }

def withAccount (session : TorrentSession) (peerAddress : String)
    (change : PeerBandwidthAccount → PeerBandwidthAccount) : TorrentSession :=
  let account := (session.incentiveAccounts[peerAddress]?).getD (.new peerAddress)
  { session with
    incentiveAccounts := session.incentiveAccounts.insert peerAddress (change account) }

/-- `record_download`. -/
def recordDownload (session : TorrentSession) (peerAddress : String) (bytes now : UInt64) :
    TorrentSession :=
  let session := { session with bytesDownloaded := saturatingAdd session.bytesDownloaded bytes }
  session.evictStaleAccounts.withAccount peerAddress fun account =>
    (account.recordDownload bytes).touch now

/-- `record_upload`. -/
def recordUpload (session : TorrentSession) (peerAddress : String) (bytes now : UInt64) :
    TorrentSession :=
  let session := { session with bytesUploaded := saturatingAdd session.bytesUploaded bytes }
  session.evictStaleAccounts.withAccount peerAddress fun account =>
    (account.recordUpload bytes).touch now

def settleAccount (session : TorrentSession) (peerAddress : String) (now : UInt64) :
    TorrentSession :=
  match session.incentiveAccounts[peerAddress]? with
  | none => session
  | some account =>
      { session with
        incentiveAccounts :=
          session.incentiveAccounts.insert peerAddress (account.settle now).2 }

end TorrentSession

def maxTorrentSessions : Nat := 64

structure SessionManager where
  sessions : ExtTreeMap String TorrentSession

namespace SessionManager

def new : SessionManager := ⟨∅⟩

def activeCount (manager : SessionManager) : Nat :=
  (values manager.sessions).countP fun session => !session.state.isTerminal

def oldestTerminal (manager : SessionManager) : Option String :=
  ((manager.sessions.toList.filter fun entry => entry.2.state.isTerminal).argmin
    fun entry => entry.2.lastActive.toNat).map Prod.fst

/-- `add_session`. -/
def addSession (manager : SessionManager) (session : TorrentSession) :
    Option String × SessionManager :=
  if maxTorrentSessions ≤ manager.activeCount then
    match manager.oldestTerminal with
    | none => (none, manager)
    | some oldest =>
        (some session.id, ⟨(manager.sessions.erase oldest).insert session.id session⟩)
  else (some session.id, ⟨manager.sessions.insert session.id session⟩)

/-- `remove_session`. -/
def removeSession (manager : SessionManager) (id : String) : SessionManager :=
  ⟨manager.sessions.erase id⟩

def setState (manager : SessionManager) (id : String) (state : SessionState) : SessionManager :=
  match manager.sessions[id]? with
  | none => manager
  | some session => ⟨manager.sessions.insert id { session with state := state }⟩

end SessionManager

end Vtorrent
