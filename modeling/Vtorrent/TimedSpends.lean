import Vtorrent.Multisig

/-!
# Spends and the advance of the chain

The height and the time of the chain are read by the two time lock opcodes only, and both
ask for at least as much.  A pair of scripts that is accepted stays accepted as the chain
advances.
-/

namespace Vtorrent

open Checked

namespace Engine

/-- The same spend, checked at a height and a time that are no earlier. -/
structure NoEarlier (env later : ScriptEnv) : Prop where
  txHash : later.txHash = env.txHash
  blockHeight : env.blockHeight ≤ later.blockHeight
  blockTime : env.blockTime ≤ later.blockTime
  txLockTime : later.txLockTime = env.txLockTime
  inputSequence : later.inputSequence = env.inputSequence
  utxoHeight : later.utxoHeight = env.utxoHeight
  utxoTimestamp : later.utxoTimestamp = env.utxoTimestamp

section Steps

variable {crypto : Crypto} {env later : ScriptEnv}

theorem NoEarlier.blockTime_toNat (advance : NoEarlier env later) :
    env.blockTime.toNat ≤ later.blockTime.toNat :=
  UInt32.le_iff_toNat_le.mp advance.blockTime

theorem NoEarlier.lockReached (advance : NoEarlier env later) {lock : Nat}
    (met : LockReached env lock) : LockReached later lock := by
  obtain ⟨notFinal, sameKind, declared, reached⟩ := met
  refine ⟨advance.inputSequence ▸ notFinal, advance.txLockTime ▸ sameKind,
    advance.txLockTime ▸ declared, ?_⟩
  by_cases isTime : 500000000 ≤ lock
  · rw [if_pos isTime] at reached ⊢
    exact reached.trans advance.blockTime_toNat
  · rw [if_neg isTime] at reached ⊢
    exact reached.trans advance.blockHeight

theorem NoEarlier.checkLockTime (crypto : Crypto) (advance : NoEarlier env later)
    {stack after : List Bytes} (accepted : checkLockTime env stack = .ok after) :
    Engine.checkLockTime later stack = .ok after := by
  have ran : stackItem crypto env (.opcode 0xb1) stack = .ok after := accepted
  obtain ⟨top, rest, lock, shape, same, decoded, nonnegative, small, met⟩ :=
    stackItem_checkLockTime.mp ran
  have again : stackItem crypto later (.opcode 0xb1) stack = .ok after :=
    stackItem_checkLockTime.mpr ⟨top, rest, lock, shape, same, decoded, nonnegative, small,
      advance.lockReached met⟩
  exact again

theorem NoEarlier.checkSequence (advance : NoEarlier env later) {stack after : List Bytes}
    (accepted : checkSequence env stack = .ok after) :
    Engine.checkSequence later stack = .ok after := by
  have heights := advance.blockHeight
  have times := advance.blockTime_toNat
  revert accepted
  simp only [Engine.checkSequence, bind_eq_ok, rejectIf_eq_ok, advance.inputSequence,
    advance.utxoHeight, advance.utxoTimestamp]
  rintro ⟨popped, stackPopped, number, decoded, _, nonnegative, _, small, accepted⟩
  refine ⟨popped, stackPopped, number, decoded, (), nonnegative, (), small, ?_⟩
  split at accepted
  · rename_i disabled
    rw [if_pos disabled]
    exact accepted
  · rename_i enabled
    rw [if_neg enabled]
    simp only [bind_eq_ok, rejectIf_eq_ok] at accepted ⊢
    obtain ⟨_, notFinal, _, sameKind, _, declared, _, aged, accepted⟩ := accepted
    refine ⟨(), notFinal, (), sameKind, (), declared, (), ?_, accepted⟩
    split at aged
    · rename_i isTime
      rw [if_pos isTime]
      simp only [Bool.not_eq_false', decide_eq_true_eq] at aged ⊢
      omega
    · rename_i isHeight
      rw [if_neg isHeight]
      simp only [Bool.not_eq_false', decide_eq_true_eq] at aged ⊢
      omega

theorem NoEarlier.checkSig (advance : NoEarlier env later) :
    Engine.checkSig crypto later = Engine.checkSig crypto env := by
  funext sig pubkey
  simp only [Engine.checkSig, advance.txHash]

theorem NoEarlier.execStack (advance : NoEarlier env later) {op : UInt8}
    {stack after : List Bytes} (ran : execStack crypto env op stack = .ok after) :
    Engine.execStack crypto later op stack = .ok after := by
  unfold Engine.execStack at ran ⊢
  simp only [checkMultisig, advance.checkSig] at ran ⊢
  split at ran
  all_goals first
    | exact ran
    | exact advance.checkLockTime crypto ran
    | exact advance.checkSequence ran

theorem NoEarlier.execOpcode (advance : NoEarlier env later) {op : UInt8}
    {state after : RunState} (ran : execOpcode crypto env op state = .ok after) :
    Engine.execOpcode crypto later op state = .ok after := by
  unfold Engine.execOpcode at ran ⊢
  split at ran
  case h_10 =>
    by_cases executing : state.executing = true
    · rw [if_pos executing, bind_eq_ok] at ran
      obtain ⟨stack, computed, same⟩ := ran
      rw [if_pos executing, bind_eq_ok]
      exact ⟨stack, advance.execStack computed, same⟩
    · rw [if_neg executing] at ran ⊢
      exact ran
  all_goals exact ran

theorem NoEarlier.execItem (advance : NoEarlier env later) {item : Script.Item}
    {state after : RunState} (ran : execItem crypto env item state = .ok after) :
    Engine.execItem crypto later item state = .ok after := by
  cases item with
  | pushData data => exact ran
  | opcode op => exact advance.execOpcode ran

end Steps

section Runs

variable {crypto : Crypto} {env later : ScriptEnv}

theorem NoEarlier.runItems (advance : NoEarlier env later) {steps : Nat}
    {items : List Script.Item} {state final : RunState}
    (ran : runItems crypto env steps items state = .ok final) :
    Engine.runItems crypto later steps items state = .ok final := by
  induction items generalizing steps state with
  | nil => exact ran
  | cons item items ih =>
      rw [Engine.runItems] at ran ⊢
      split at ran
      · cases ran
      · rename_i allowed
        rw [if_neg allowed, bind_eq_ok]
        obtain ⟨next, stepped, rest⟩ := bind_eq_ok.mp ran
        exact ⟨next, advance.execItem stepped, ih rest⟩

theorem NoEarlier.run (advance : NoEarlier env later) {script : Script}
    {start final : Stacks} (ran : run crypto env script start = .ok final) :
    Engine.run crypto later script start = .ok final := by
  simp only [Engine.run, bind_eq_ok] at ran ⊢
  obtain ⟨_, valid, state, stepped, ended⟩ := ran
  exact ⟨_, valid, state, advance.runItems stepped, ended⟩

theorem NoEarlier.runRedeem (advance : NoEarlier env later) {stack altStack : List Bytes}
    (ran : runRedeem crypto env stack altStack = .ok ()) :
    Engine.runRedeem crypto later stack altStack = .ok () := by
  simp only [Engine.runRedeem, bind_eq_ok] at ran ⊢
  obtain ⟨popped, found, script, sized, final, redeemed, truthy⟩ := ran
  exact ⟨popped, found, script, sized, final, advance.run redeemed, truthy⟩

end Runs

/-- A pair of scripts that is accepted at some height and time is accepted at every height
and time that are no earlier. -/
theorem execute_no_earlier (crypto : Crypto) (env later : ScriptEnv)
    (scriptSig scriptPubkey : Script) (advance : NoEarlier env later)
    (accepted : execute crypto env scriptSig scriptPubkey = .ok ()) :
    execute crypto later scriptSig scriptPubkey = .ok () := by
  simp only [execute, runSig, bind_eq_ok] at accepted ⊢
  obtain ⟨afterSig, ranSig, afterPubkey, ranPubkey, _, truthy, redeemed⟩ := accepted
  refine ⟨afterSig, advance.run ranSig, afterPubkey, advance.run ranPubkey, (), truthy, ?_⟩
  by_cases hashed : isP2sh scriptPubkey = true
  · rw [if_pos hashed] at redeemed ⊢
    exact advance.runRedeem redeemed
  · rw [if_neg hashed] at redeemed ⊢
    exact redeemed

namespace Keyed

/-- A spend declared for height seven of an output created at height two. -/
def timed (height : Nat) : ScriptEnv :=
  { env with blockHeight := height, txLockTime := 7, inputSequence := 3, utxoHeight := 2 }

end Keyed

/-- An output locked until height seven and for three blocks, in both ways, stays spendable
from height seven on. -/
theorem execute_timed_later :
    execute Keyed.crypto (Keyed.timed 9) ⟨[]⟩ ⟨[0x57, 0xb1, 0x75, 0x53, 0xb2]⟩ = .ok () :=
  execute_no_earlier Keyed.crypto (Keyed.timed 7) (Keyed.timed 9) ⟨[]⟩ _
    ⟨rfl, by decide, by decide, rfl, rfl, rfl, rfl⟩ rfl

end Engine

end Vtorrent
