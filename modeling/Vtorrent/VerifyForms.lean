import Vtorrent.Multisig

/-!
# Opcodes with a verifying form

Four opcodes that push a truth value have a form that fails instead of pushing false.  The
form of the multisignature check pushes true as well, so it is not the plain opcode followed
by `OP_VERIFY` when the signatures are accepted.
-/

namespace Vtorrent

open Checked

namespace Engine

/-- The opcodes with a verifying form. -/
inductive Test where
  | equal
  | numEqual
  | checkSig
  | checkMultisig
  deriving DecidableEq, Repr

def Test.opcode : Test → UInt8
  | .equal => 0x87
  | .numEqual => 0x9c
  | .checkSig => 0xac
  | .checkMultisig => 0xae

/-- The opcode that fails unless the outcome is true. -/
def Test.verifyOpcode : Test → UInt8
  | .equal => 0x88
  | .numEqual => 0x9d
  | .checkSig => 0xad
  | .checkMultisig => 0xaf

def MultisigSatisfied (crypto : Crypto) (env : ScriptEnv) (stack : List Bytes) : Prop :=
  ∃ keys sigs below, MultisigLayout stack keys sigs below ∧
    SignedInOrder crypto env sigs keys

section Stacks

variable {crypto : Crypto} {env : ScriptEnv} {stack after : List Bytes}

theorem execStack_verify :
    execStack crypto env 0x69 stack = .ok after ↔
      ∃ top, stack = top :: after ∧ isTrue top = true := by
  cases stack with
  | nil =>
      change Except.error ScriptError.emptyStack = .ok after ↔ _
      simp
  | cons top rest =>
      change (rejectIf (!isTrue top) ScriptError.verifyFailed >>= fun _ => pure rest) =
        Except.ok after ↔ _
      simp only [bind_eq_ok, rejectIf_eq_ok, pure_eq_ok, Bool.not_eq_false']
      constructor
      · rintro ⟨_, truthy, rfl⟩
        exact ⟨top, rfl, truthy⟩
      · rintro ⟨_, same, truthy⟩
        cases same
        exact ⟨(), truthy, rfl⟩

/-- The plain opcode followed by `OP_VERIFY`, on the main stack. -/
def verified (crypto : Crypto) (env : ScriptEnv) (test : Test) (stack : List Bytes) :
    Except ScriptError (List Bytes) :=
  execStack crypto env test.opcode stack >>= execStack crypto env 0x69

/-- A plain opcode that pushes an outcome, followed by `OP_VERIFY`. -/
theorem verified_eq_ok {test : Test} :
    verified crypto env test stack = .ok after ↔
      ∃ top, execStack crypto env test.opcode stack = .ok (top :: after) ∧
        isTrue top = true := by
  simp only [verified, bind_eq_ok, execStack_verify]
  constructor
  · rintro ⟨_, ran, top, rfl, truthy⟩
    exact ⟨top, ran, truthy⟩
  · rintro ⟨top, ran, truthy⟩
    exact ⟨_, ran, top, rfl, truthy⟩

theorem verified_equal :
    execStack crypto env 0x88 stack = .ok after ↔
      verified crypto env .equal stack = .ok after := by
  rw [verified_eq_ok]
  change stackItem crypto env (.opcode 0x88) stack = .ok after ↔
    ∃ top, stackItem crypto env (.opcode 0x87) stack = .ok (top :: after) ∧ isTrue top = true
  simp only [stackItem_equalVerify, stackItem_equal]
  constructor
  · rintro ⟨value, rfl⟩
    exact ⟨_, ⟨value, value, after, rfl, rfl⟩, by simp [isTrue_boolToBytes]⟩
  · rintro ⟨_, ⟨second, first, rest, rfl, same⟩, truthy⟩
    cases same
    rw [isTrue_boolToBytes, beq_iff_eq] at truthy
    exact ⟨first, by rw [truthy]⟩

theorem verified_numEqual :
    execStack crypto env 0x9d stack = .ok after ↔
      verified crypto env .numEqual stack = .ok after := by
  rw [verified_eq_ok]
  change (popNums stack >>= fun popped =>
      rejectIf (popped.1 != popped.2.1) ScriptError.verifyFailed >>= fun _ =>
        pure popped.2.2) = .ok after ↔
    ∃ top, (popNums stack >>= fun popped =>
      pure (boolToBytes (popped.1 == popped.2.1) :: popped.2.2)) =
      .ok (top :: after) ∧ isTrue top = true
  simp only [bind_eq_ok, rejectIf_eq_ok, pure_eq_ok, Prod.exists]
  constructor
  · rintro ⟨a, b, rest, popped, _, same, rfl⟩
    refine ⟨_, ⟨a, b, rest, popped, rfl⟩, ?_⟩
    simpa [isTrue_boolToBytes] using same
  · rintro ⟨_, ⟨a, b, rest, popped, same⟩, truthy⟩
    cases same
    refine ⟨a, b, after, popped, (), ?_, rfl⟩
    simpa [isTrue_boolToBytes] using truthy

theorem verified_checkSig :
    execStack crypto env 0xad stack = .ok after ↔
      verified crypto env .checkSig stack = .ok after := by
  rw [verified_eq_ok]
  change _ ↔
    ∃ top, stackItem crypto env (.opcode 0xac) stack = .ok (top :: after) ∧ isTrue top = true
  simp only [stackItem_checkSig]
  match stack with
  | [] | [_] =>
      change Except.error ScriptError.emptyStack = .ok after ↔ _
      simp
  | pubkey :: sig :: rest =>
      change (checkSig crypto env sig pubkey >>= fun _ => pure rest) = .ok after ↔ _
      simp only [bind_eq_ok, pure_eq_ok, ← isOk_checkSig]
      constructor
      · rintro ⟨_, valid, rfl⟩
        refine ⟨_, ⟨pubkey, sig, rest, rfl, rfl⟩, ?_⟩
        rw [isTrue_boolToBytes, isOk_eq_true]
        exact ⟨_, valid⟩
      · rintro ⟨_, ⟨_, _, _, shape, same⟩, truthy⟩
        cases shape
        cases same
        rw [isTrue_boolToBytes, isOk_eq_true] at truthy
        obtain ⟨_, valid⟩ := truthy
        exact ⟨_, valid, rfl⟩

/-- The verifying form keeps the outcome that `OP_VERIFY` takes off the stack. -/
theorem verified_checkMultisig :
    execStack crypto env 0xaf stack = .ok (boolToBytes true :: after) ↔
      verified crypto env .checkMultisig stack = .ok after := by
  rw [verified_eq_ok]
  change checkMultisig crypto env true stack = _ ↔
    ∃ top, checkMultisig crypto env false stack = .ok (top :: after) ∧ isTrue top = true
  simp only [checkMultisig_eq_ok]
  constructor
  · rintro ⟨keys, sigs, below, success, layout, enough, signed, verified, same⟩
    obtain rfl := verified trivial
    cases same
    exact ⟨_, ⟨keys, sigs, below, true, layout, enough, signed, nofun, rfl⟩, rfl⟩
  · rintro ⟨_, ⟨keys, sigs, below, success, layout, enough, signed, -, same⟩, truthy⟩
    cases same
    rw [isTrue_boolToBytes] at truthy
    subst truthy
    exact ⟨keys, sigs, below, true, layout, enough, signed, fun _ => rfl, rfl⟩

theorem execStack_checkMultisigVerify :
    (∃ after, execStack crypto env 0xaf stack = .ok after) ↔
      MultisigSatisfied crypto env stack := by
  change (∃ after, checkMultisig crypto env true stack = .ok after) ↔ _
  simp only [checkMultisig_eq_ok]
  constructor
  · rintro ⟨_, keys, sigs, below, success, layout, -, signed, verified, -⟩
    exact ⟨keys, sigs, below, layout, signed.mp (verified trivial)⟩
  · rintro ⟨keys, sigs, below, layout, signed⟩
    exact ⟨_, keys, sigs, below, true, layout, signed.length_le, by simpa using signed,
      fun _ => rfl, rfl⟩

/-- On the main stack the two forms agree, unless accepted signatures are verified. -/
theorem verifyForm_stack_iff {test : Test} :
    (∀ after, execStack crypto env test.verifyOpcode stack = .ok after ↔
        verified crypto env test stack = .ok after) ↔
      (test = .checkMultisig → ¬ MultisigSatisfied crypto env stack) := by
  cases test with
  | equal => exact iff_of_true (fun _ => verified_equal) nofun
  | numEqual => exact iff_of_true (fun _ => verified_numEqual) nofun
  | checkSig => exact iff_of_true (fun _ => verified_checkSig) nofun
  | checkMultisig =>
      change (∀ after, execStack crypto env 0xaf stack = .ok after ↔ _) ↔ _
      rw [← execStack_checkMultisigVerify]
      constructor
      · rintro agree - ⟨after, ran⟩
        have kept := verified_checkMultisig.mpr ((agree after).mp ran)
        rw [ran, Except.ok.injEq] at kept
        simpa using congrArg List.length kept
      · intro rejected after
        have fails := rejected rfl
        refine iff_of_false (fun ran => fails ⟨_, ran⟩) fun ran => ?_
        exact fails ⟨_, verified_checkMultisig.mpr ran⟩

end Stacks

theorem toOption_eq_toOption {ε α : Type} {first second : Except ε α} :
    first.toOption = second.toOption ↔ ∀ value, first = .ok value ↔ second = .ok value := by
  cases first <;> cases second <;> simp [Except.toOption, eq_comm]

/-- Running the verifying form of an opcode is running the plain form followed by
`OP_VERIFY`, both failing or both leaving the same state, unless the opcode is an executed
multisignature check on signatures that are accepted. -/
theorem verifyForm_iff (crypto : Crypto) (env : ScriptEnv) (test : Test) (state : RunState) :
    (execItem crypto env (.opcode test.verifyOpcode) state).toOption =
        (execItem crypto env (.opcode test.opcode) state >>=
          execItem crypto env (.opcode 0x69)).toOption ↔
      (test = .checkMultisig → state.executing = true →
        ¬ MultisigSatisfied crypto env state.stack) := by
  obtain ⟨⟨stack, altStack⟩, executing, ifStack⟩ := state
  have plainOnStack : OnStack (.opcode test.opcode) := by cases test <;> decide
  have formOnStack : OnStack (.opcode test.verifyOpcode) := by cases test <;> decide
  have verifyOnStack : OnStack (.opcode 0x69) := by decide
  cases executing with
  | false =>
      refine iff_of_true ?_ nofun
      rw [execItem_skipped formOnStack.straight rfl, execItem_skipped plainOnStack.straight rfl,
        ok_bind, execItem_skipped verifyOnStack.straight rfl]
  | true =>
      have plain : execItem crypto env (.opcode test.opcode) ⟨⟨stack, altStack⟩, true, ifStack⟩ >>=
            execItem crypto env (.opcode 0x69) =
          (verified crypto env test stack >>= fun after =>
            .ok ⟨⟨after, altStack⟩, true, ifStack⟩) := by
        rw [execItem_onStack plainOnStack, bind_assoc, verified, bind_assoc]
        congr 1
      rw [plain, execItem_onStack formOnStack, toOption_eq_toOption]
      simp only [forall_const]
      rw [← verifyForm_stack_iff]
      constructor
      · intro agree after
        have states := agree ⟨⟨after, altStack⟩, true, ifStack⟩
        simpa [stackItem] using states
      · intro agree value
        simp only [bind_eq_ok, stackItem, agree]

def Keyed.signed : RunState := ⟨⟨[[1], [2], [1], [2, 1], []], []⟩, true, []⟩

/-- The verifying form leaves true on the stack, the plain form and `OP_VERIFY` nothing. -/
theorem multisigVerify_leaves_true :
    execItem Keyed.crypto Keyed.env (.opcode 0xaf) Keyed.signed =
        .ok ⟨⟨[[1]], []⟩, true, []⟩ ∧
      (execItem Keyed.crypto Keyed.env (.opcode 0xae) Keyed.signed >>=
        execItem Keyed.crypto Keyed.env (.opcode 0x69)) = .ok ⟨⟨[], []⟩, true, []⟩ :=
  ⟨rfl, rfl⟩

end Engine

end Vtorrent
