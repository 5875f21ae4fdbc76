import Vtorrent.BodyCommitment
import Vtorrent.DecimalText
import Vtorrent.Metainfo

/-!
# The replay state of one-time codes

An accepted code is recorded by writing its time step into a file of the authenticator, under an
exclusive lock.  Calls in one or several processes interleave between their file operations, and
each can stop at any of them, because an operation fails or because the process crashes.
-/

namespace Vtorrent

open DecimalText

inductive ReplayError where
  | otpReplay
  | io (reason : String)
  deriving DecidableEq

/-- What a call finds at the path of the legacy record: nothing, a symbolic link or a file of
more than 128 bytes, an error, or a file with some content. -/
inductive LegacyRecord where
  | absent
  | refused
  | unreadable (reason : String)
  | content (bytes : Bytes)

/-- The arguments of `consume_account_step_in_store` for one secret. -/
structure ConsumeCall where
  step : UInt64
  walletLast : Option UInt64
  legacy : LegacyRecord

/-- `read_to_string`. -/
def readToString (bytes : Bytes) : Except ReplayError String :=
  required (ReplayError.io "stream did not contain valid UTF-8") (fromUtf8 bytes)

def parseStep (reason text : String) : Except ReplayError UInt64 :=
  required (ReplayError.io reason) (parseU64 (trim text.toList))

def legacyStep (bytes : Bytes) : Except ReplayError UInt64 := do
  let value ← readToString (bytes.take 129)
  rejectIf (decide (128 < (bytes.take 129).length))
    (ReplayError.io "invalid legacy TOTP replay state")
  parseStep "invalid legacy TOTP replay state" value

namespace ConsumeCall

def checkLegacy (call : ConsumeCall) : Except ReplayError Unit :=
  match call.legacy with
  | .absent => .ok ()
  | .refused => .error (.io "invalid legacy TOTP replay state")
  | .unreadable reason => .error (.io reason)
  | .content bytes => do
      let last ← legacyStep bytes
      rejectIf (decide (call.step ≤ last)) ReplayError.otpReplay

def checkRecords (call : ConsumeCall) : Except ReplayError Unit := do
  rejectIf (call.walletLast.any fun last => decide (call.step ≤ last)) ReplayError.otpReplay
  call.checkLegacy

end ConsumeCall

/-- The last step in the file; only the call that created the file may find it empty. -/
def lastStep (created : Bool) (content : Bytes) : Except ReplayError (Option UInt64) := do
  rejectIf (decide (128 < content.length)) (ReplayError.io "TOTP replay state is too large")
  let previous ← readToString content
  if created ∧ previous = "" then pure none
  else some <$> parseStep "invalid TOTP replay state" previous

def stepBytes (step : UInt64) : Bytes := stringBytes (String.ofList (printU64 step))

/-- Where a call is; `created` says whether the call created the file, and `rest` is what it has
still to write. -/
inductive CallPhase where
  | idle
  | opened (created : Bool)
  | locked (created : Bool)
  | ready
  | writing (rest : Bytes)
  | accepted
  | ended

/-- The file of the authenticator, the call that has its lock, the calls, and the accepted ones
in the order of acceptance. -/
structure ReplayStore where
  file : Option Bytes
  holder : Option Nat
  phases : Nat → CallPhase
  log : List Nat

/-- One operation of a call.  A call stops when an operation fails or its process crashes, and
one call of `write` may write less than it is given. -/
inductive ReplayEvent where
  | enter (call : Nat)
  | lock (call : Nat)
  | read (call : Nat)
  | truncate (call : Nat)
  | write (call count : Nat)
  | sync (call : Nat)
  | release (call : Nat)
  | stop (call : Nat)

namespace ReplayStore

def move (store : ReplayStore) (call : Nat) (phase : CallPhase) : ReplayStore :=
  { store with phases := Function.update store.phases call phase }

/-- A call that ends gives the lock back. -/
def leave (store : ReplayStore) (call : Nat) : ReplayStore :=
  { store.move call .ended with
    holder := if store.holder = some call then none else store.holder }

/-- The checks of a call, then `create_new` or, if the file exists, `open`. -/
def openFile (store : ReplayStore) (call : Nat) (arguments : ConsumeCall) : ReplayStore :=
  match arguments.checkRecords, store.file with
  | .error _, _ => store.leave call
  | .ok _, none => { store.move call (.opened true) with file := some [] }
  | .ok _, some _ => store.move call (.opened false)

def readFile (store : ReplayStore) (call : Nat) (arguments : ConsumeCall) (created : Bool)
    (content : Bytes) : ReplayStore :=
  match lastStep created content with
  | .error _ => store.leave call
  | .ok last =>
      if last.any fun last => decide (arguments.step ≤ last) then store.leave call
      else store.move call .ready

def perform (calls : Nat → ConsumeCall) (store : ReplayStore) : ReplayEvent → Option ReplayStore
  | .enter call =>
      match store.phases call with
      | .idle => some (store.openFile call (calls call))
      | _ => none
  | .lock call =>
      match store.phases call, store.holder with
      | .opened created, none => some { store.move call (.locked created) with holder := some call }
      | _, _ => none
  | .read call =>
      match store.phases call, store.file with
      | .locked created, some content => some (store.readFile call (calls call) created content)
      | _, _ => none
  | .truncate call =>
      match store.phases call with
      | .ready =>
          some { store.move call (.writing (stepBytes (calls call).step)) with file := some [] }
      | _ => none
  | .write call count =>
      match store.phases call, store.file with
      | .writing rest, some content =>
          if 0 < count ∧ count ≤ rest.length then
            some { store.move call (.writing (rest.drop count)) with
              file := some (content ++ rest.take count) }
          else none
      | _, _ => none
  | .sync call =>
      match store.phases call with
      | .writing [] => some { store.move call .accepted with log := store.log ++ [call] }
      | _ => none
  | .release call =>
      match store.phases call with
      | .accepted => some (store.leave call)
      | _ => none
  | .stop call =>
      match store.phases call with
      | .ended => none
      | _ => some (store.leave call)

/-- The stores that operations of a kind lead to. -/
inductive Run (calls : Nat → ConsumeCall) (allowed : ReplayStore → ReplayEvent → Prop)
    (first : ReplayStore) : ReplayStore → Prop
  | refl : Run calls allowed first first
  | step {middle next : ReplayStore} {event : ReplayEvent} (run : Run calls allowed first middle)
      (permitted : allowed middle event) (performed : middle.perform calls event = some next) :
      Run calls allowed first next

/-- The store after operations, all of which are permitted. -/
def performAll (calls : Nat → ConsumeCall) (permits : ReplayStore → ReplayEvent → Bool)
    (store : ReplayStore) (events : List ReplayEvent) : Option ReplayStore :=
  events.foldlM (fun store event =>
    if permits store event then store.perform calls event else none) store

def AnyOperation (_ : ReplayStore) (_ : ReplayEvent) : Prop := True

/-- A write is not cut short: it writes everything that is left. -/
def WritesWhole (store : ReplayStore) : ReplayEvent → Prop
  | .write call count => ∀ rest, store.phases call = .writing rest → count = rest.length
  | _ => True

def writesWhole (store : ReplayStore) : ReplayEvent → Bool
  | .write call count =>
      match store.phases call with
      | .writing rest => count == rest.length
      | _ => true
  | _ => true

theorem writesWhole_iff {store : ReplayStore} {event : ReplayEvent} :
    store.writesWhole event = true ↔ store.WritesWhole event := by
  cases event with
  | write call count =>
      simp only [writesWhole, WritesWhole]
      cases store.phases call <;> simp
  | _ => simp [writesWhole, WritesWhole]

def initial (file : Option Bytes) : ReplayStore := ⟨file, none, fun _ => .idle, []⟩

end ReplayStore

end Vtorrent
