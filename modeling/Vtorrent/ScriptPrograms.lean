import Vtorrent.AssembledScripts
import Vtorrent.AtomicSwap

/-!
# Running scripts from their building blocks

Running a conditional with two straight-line branches is running the selected branch.
The two building blocks of the standard scripts, the check of a key and the check of a
lock, say exactly which stacks they accept and what they leave.
-/

namespace Vtorrent

open Checked

namespace Engine

open Script

/-- Items that only act when they are executed: no conditional and no `OP_RETURN`. -/
def Straight : Item → Prop
  | .opcode op => op ≠ 0x63 ∧ op ≠ 0x64 ∧ op ≠ 0x67 ∧ op ≠ 0x68 ∧ op ≠ 0x6a
  | .pushData _ => True

instance (item : Item) : Decidable (Straight item) :=
  match item with
  | .opcode op => inferInstanceAs
      (Decidable (op ≠ 0x63 ∧ op ≠ 0x64 ∧ op ≠ 0x67 ∧ op ≠ 0x68 ∧ op ≠ 0x6a))
  | .pushData _ => inferInstanceAs (Decidable True)

section Items

variable {crypto : Crypto} {env : ScriptEnv}

def execItems (crypto : Crypto) (env : ScriptEnv) :
    List Item → RunState → Except ScriptError RunState
  | [], state => .ok state
  | item :: items, state => do
      let state ← execItem crypto env item state
      execItems crypto env items state

theorem runItems_eq_execItems {steps : Nat} {items : List Item}
    (fits : steps + items.length ≤ maxScriptExecSteps) (state : RunState) :
    runItems crypto env steps items state = execItems crypto env items state := by
  induction items generalizing steps state with
  | nil => rfl
  | cons item items ih =>
      rw [List.length_cons] at fits
      rw [runItems, execItems, if_neg (by omega)]
      congr 1
      funext next
      exact ih (by omega) next

theorem execItems_append (first second : List Item) (state : RunState) :
    execItems crypto env (first ++ second) state =
      execItems crypto env first state >>= execItems crypto env second := by
  induction first generalizing state with
  | nil => rfl
  | cons item first ih =>
      rw [List.cons_append, execItems, execItems, bind_assoc]
      congr 1
      funext next
      exact ih next

theorem execItem_skipped {item : Item} (straight : Straight item) {state : RunState}
    (skipped : state.executing = false) : execItem crypto env item state = .ok state := by
  cases item with
  | pushData data => simp [execItem, skipped]
  | opcode op =>
      obtain ⟨notIf, notNotif, notElse, notEndif, notReturn⟩ := straight
      rw [execItem]
      unfold execOpcode
      split <;> simp_all [← UInt8.toNat_inj]

theorem execItems_skipped {items : List Item} (straight : ∀ item ∈ items, Straight item)
    {state : RunState} (skipped : state.executing = false) :
    execItems crypto env items state = .ok state := by
  induction items with
  | nil => rfl
  | cons item items ih =>
      rw [List.forall_mem_cons] at straight
      rw [execItems, execItem_skipped straight.1 skipped]
      exact ih straight.2

theorem execItem_straight {item : Item} (straight : Straight item)
    {state after : RunState} (ran : execItem crypto env item state = .ok after) :
    after.executing = state.executing ∧ after.ifStack = state.ifStack := by
  obtain ⟨⟨stack, altStack⟩, executing, ifStack⟩ := state
  cases executing with
  | false =>
      rw [execItem_skipped straight rfl] at ran
      cases ran
      exact ⟨rfl, rfl⟩
  | true =>
      cases item with
      | pushData data =>
          simp only [execItem, if_true] at ran
          split at ran <;> cases ran
          exact ⟨rfl, rfl⟩
      | opcode op =>
          obtain ⟨notIf, notNotif, notElse, notEndif, notReturn⟩ := straight
          rw [execItem] at ran
          unfold execOpcode at ran
          simp only [if_true] at ran
          split at ran
          case h_8 | h_9 =>
            obtain ⟨⟨top, rest⟩, -, ran⟩ := bind_eq_ok.mp ran
            cases ran
            exact ⟨rfl, rfl⟩
          case h_10 =>
            obtain ⟨_, -, ran⟩ := bind_eq_ok.mp ran
            cases ran
            exact ⟨rfl, rfl⟩
          all_goals first
            | (cases ran; exact ⟨rfl, rfl⟩)
            | simp_all [← UInt8.toNat_inj]

theorem execItems_straight {items : List Item} (straight : ∀ item ∈ items, Straight item)
    {state after : RunState} (ran : execItems crypto env items state = .ok after) :
    after.executing = state.executing ∧ after.ifStack = state.ifStack := by
  induction items generalizing state with
  | nil =>
      cases ran
      exact ⟨rfl, rfl⟩
  | cons item items ih =>
      rw [List.forall_mem_cons] at straight
      rw [execItems, bind_eq_ok] at ran
      obtain ⟨next, first, rest⟩ := ran
      obtain ⟨executing, ifStack⟩ := execItem_straight straight.1 first
      rw [← executing, ← ifStack]
      exact ih straight.2 rest

end Items

section Conditional

variable {crypto : Crypto} {env : ScriptEnv} {first second : List Item}

def ifElse (first second : List Item) : List Item :=
  .opcode 0x63 :: (first ++ .opcode 0x67 :: (second ++ [.opcode 0x68]))

theorem execItems_ifElse (straightFirst : ∀ item ∈ first, Straight item)
    (straightSecond : ∀ item ∈ second, Straight item) (top : Bytes)
    (rest altStack : List Bytes) :
    execItems crypto env (ifElse first second) ⟨⟨top :: rest, altStack⟩, true, []⟩ =
      (execItems crypto env (if isTrue top then first else second)
        ⟨⟨rest, altStack⟩, true, [true]⟩ >>= fun selected =>
          .ok ⟨selected.toStacks, true, []⟩) := by
  have opened : execItem crypto env (.opcode 0x63) ⟨⟨top :: rest, altStack⟩, true, []⟩ =
      .ok ⟨⟨rest, altStack⟩, isTrue top, [true]⟩ := rfl
  have ended : ∀ held executing, execItem crypto env (.opcode 0x68)
      ⟨held, executing, [true]⟩ = .ok ⟨held, true, []⟩ := fun _ _ => rfl
  have switched : ∀ held executing, execItem crypto env (.opcode 0x67)
      ⟨held, executing, [true]⟩ = .ok ⟨held, !executing, [true]⟩ := fun _ _ => rfl
  rw [ifElse, execItems, opened, ok_bind, execItems_append]
  cases chosen : isTrue top with
  | true =>
      cases ran : execItems crypto env first ⟨⟨rest, altStack⟩, true, [true]⟩ with
      | error error => simp [ran]
      | ok selected =>
          obtain ⟨held, executing, ifStack⟩ := selected
          obtain ⟨rfl, rfl⟩ := execItems_straight straightFirst ran
          rw [if_pos rfl, ran, ok_bind, ok_bind, execItems, switched, ok_bind,
            execItems_append, execItems_skipped straightSecond rfl, ok_bind, execItems,
            ended]
          rfl
  | false =>
      rw [execItems_skipped straightFirst rfl, ok_bind, execItems, switched, ok_bind,
        execItems_append, if_neg Bool.false_ne_true]
      cases ran : execItems crypto env second ⟨⟨rest, altStack⟩, true, [true]⟩ with
      | error error => simp [ran]
      | ok selected =>
          obtain ⟨held, executing, ifStack⟩ := selected
          obtain ⟨rfl, rfl⟩ := execItems_straight straightSecond ran
          rw [Bool.not_false, ran, ok_bind, ok_bind, execItems, ended]
          rfl

theorem execItems_ifElse_empty (altStack : List Bytes) :
    execItems crypto env (ifElse first second) ⟨⟨[], altStack⟩, true, []⟩ =
      .error .emptyStack := rfl

end Conditional

section StackItems

variable {crypto : Crypto} {env : ScriptEnv}

def OnStack : Item → Prop
  | .opcode op => op ∉ [0x61, 0x63, 0x64, 0x67, 0x68, 0x6a, 0x6b, 0x6c, 0xab]
  | .pushData _ => True

instance (item : Item) : Decidable (OnStack item) :=
  match item with
  | .opcode op => inferInstanceAs
      (Decidable (op ∉ [0x61, 0x63, 0x64, 0x67, 0x68, 0x6a, 0x6b, 0x6c, 0xab]))
  | .pushData _ => inferInstanceAs (Decidable True)

theorem OnStack.straight {item : Item} (onStack : OnStack item) : Straight item := by
  cases item with
  | pushData data => trivial
  | opcode op =>
      simp only [OnStack, List.mem_cons, not_or] at onStack
      unfold Straight
      tauto

def stackItem (crypto : Crypto) (env : ScriptEnv) :
    Item → List Bytes → Except ScriptError (List Bytes)
  | .opcode op, stack => execStack crypto env op stack
  | .pushData data, stack =>
      if stack.length ≥ maxStackDepth then .error .stackOverflow else .ok (data :: stack)

def stackItems (crypto : Crypto) (env : ScriptEnv) :
    List Item → List Bytes → Except ScriptError (List Bytes)
  | [], stack => .ok stack
  | item :: items, stack => do
      let stack ← stackItem crypto env item stack
      stackItems crypto env items stack

theorem execItem_onStack {item : Item} (onStack : OnStack item) (stack altStack : List Bytes)
    (ifStack : List Bool) :
    execItem crypto env item ⟨⟨stack, altStack⟩, true, ifStack⟩ =
      (stackItem crypto env item stack >>= fun after =>
        .ok ⟨⟨after, altStack⟩, true, ifStack⟩) := by
  cases item with
  | pushData data =>
      rw [execItem, stackItem, if_pos rfl]
      split <;> rfl
  | opcode op =>
      simp only [OnStack, List.mem_cons, not_or] at onStack
      rw [execItem, stackItem]
      unfold execOpcode
      split <;> first | rfl | simp_all [← UInt8.toNat_inj]

/-- Executed stack items leave everything but the main stack alone. -/
theorem execItems_onStack {items : List Item} (onStack : ∀ item ∈ items, OnStack item)
    (stack altStack : List Bytes) (ifStack : List Bool) :
    execItems crypto env items ⟨⟨stack, altStack⟩, true, ifStack⟩ =
      (stackItems crypto env items stack >>= fun after =>
        .ok ⟨⟨after, altStack⟩, true, ifStack⟩) := by
  induction items generalizing stack with
  | nil => rfl
  | cons item items ih =>
      rw [List.forall_mem_cons] at onStack
      rw [execItems, execItem_onStack onStack.1, stackItems, bind_assoc, bind_assoc]
      congr 1
      funext next
      exact ih onStack.2 next

theorem stackItems_append (first second : List Item) (stack : List Bytes) :
    stackItems crypto env (first ++ second) stack =
      stackItems crypto env first stack >>= stackItems crypto env second := by
  induction first generalizing stack with
  | nil => rfl
  | cons item first ih =>
      rw [List.cons_append, stackItems, stackItems, bind_assoc]
      congr 1
      funext next
      exact ih next

end StackItems

section Opcodes

variable {crypto : Crypto} {env : ScriptEnv} {stack after : List Bytes}

theorem stackItem_push {data : Bytes} :
    stackItem crypto env (.pushData data) stack = .ok after ↔
      stack.length < maxStackDepth ∧ after = data :: stack := by
  rw [stackItem]
  split
  · simp
    omega
  · simp [eq_comm]
    omega

theorem stackItem_dup :
    stackItem crypto env (.opcode 0x76) stack = .ok after ↔
      ∃ top rest, stack = top :: rest ∧ after = top :: top :: rest := by
  cases stack with
  | nil =>
      change Except.error ScriptError.emptyStack = .ok after ↔ _
      simp
  | cons top rest =>
      change Except.ok (top :: top :: rest) = .ok after ↔ _
      simp [eq_comm]

theorem stackItem_drop :
    stackItem crypto env (.opcode 0x75) stack = .ok after ↔
      ∃ top, stack = top :: after := by
  cases stack with
  | nil =>
      change Except.error ScriptError.emptyStack = .ok after ↔ _
      simp
  | cons top rest =>
      change Except.ok rest = .ok after ↔ _
      simp

theorem stackItem_size :
    stackItem crypto env (.opcode 0x82) stack = .ok after ↔
      ∃ top rest, stack = top :: rest ∧ after = intToBytes top.length :: top :: rest := by
  cases stack with
  | nil =>
      change Except.error ScriptError.emptyStack = .ok after ↔ _
      simp
  | cons top rest =>
      change Except.ok (intToBytes top.length :: top :: rest) = .ok after ↔ _
      simp [eq_comm]

theorem hashTop_eq_ok {digest : Bytes → Bytes} :
    hashTop digest stack = .ok after ↔
      ∃ top rest, stack = top :: rest ∧ after = digest top :: rest := by
  cases stack <;> simp [hashTop, pop, eq_comm]

theorem stackItem_sha256 :
    stackItem crypto env (.opcode 0xa8) stack = .ok after ↔
      ∃ top rest, stack = top :: rest ∧ after = (crypto.sha256 top).toList :: rest := by
  change hashTop (fun top => (crypto.sha256 top).toList) stack = .ok after ↔ _
  exact hashTop_eq_ok

theorem stackItem_hash160 :
    stackItem crypto env (.opcode 0xa9) stack = .ok after ↔
      ∃ top rest, stack = top :: rest ∧ after = (crypto.hash160 top).toList :: rest := by
  change hashTop (fun top => (crypto.hash160 top).toList) stack = .ok after ↔ _
  exact hashTop_eq_ok

theorem stackItem_equalVerify :
    stackItem crypto env (.opcode 0x88) stack = .ok after ↔
      ∃ value, stack = value :: value :: after := by
  match stack with
  | [] | [_] =>
      change Except.error ScriptError.emptyStack = .ok after ↔ _
      simp
  | b :: a :: rest =>
      change (if a = b then Except.ok rest else .error _) = .ok after ↔ _
      by_cases same : a = b <;> simp [same, eq_comm]

theorem stackItem_equal :
    stackItem crypto env (.opcode 0x87) stack = .ok after ↔
      ∃ second first rest, stack = second :: first :: rest ∧
        after = boolToBytes (first == second) :: rest := by
  match stack with
  | [] | [_] =>
      change Except.error ScriptError.emptyStack = .ok after ↔ _
      simp
  | second :: first :: rest =>
      change Except.ok (boolToBytes (first == second) :: rest) = .ok after ↔ _
      simp [eq_comm]

theorem isOk_eq_true {ε α : Type} {result : Except ε α} :
    isOk result = true ↔ ∃ value, result = .ok value := by
  cases result <;> simp [isOk]

theorem isOk_checkSig (sig pubkey : Bytes) :
    isOk (checkSig crypto env sig pubkey) =
      crypto.signatureValid env.txHash sig pubkey := by
  rw [Bool.eq_iff_iff, isOk_eq_true]
  simp [checkSig, Crypto.signatureValid, and_assoc]

theorem stackItem_checkSig :
    stackItem crypto env (.opcode 0xac) stack = .ok after ↔
      ∃ pubkey sig rest, stack = pubkey :: sig :: rest ∧
        after = boolToBytes (crypto.signatureValid env.txHash sig pubkey) :: rest := by
  match stack with
  | [] | [_] =>
      change Except.error ScriptError.emptyStack = .ok after ↔ _
      simp
  | pubkey :: sig :: rest =>
      change Except.ok (boolToBytes (isOk (checkSig crypto env sig pubkey)) :: rest) =
        .ok after ↔ _
      simp [isOk_checkSig, eq_comm]

/-- What `OP_CHECKLOCKTIMEVERIFY` asks of a lock: the input is not final, the transaction
declares a lock of the same kind that is no earlier, and the chain has got there. -/
structure LockReached (env : ScriptEnv) (lock : Nat) : Prop where
  notFinal : env.inputSequence ≠ 0xffffffff
  sameKind : 500000000 ≤ lock ↔ 500000000 ≤ env.txLockTime.toNat
  declared : lock ≤ env.txLockTime.toNat
  reached : if 500000000 ≤ lock then lock ≤ env.blockTime.toNat else lock ≤ env.blockHeight

theorem stackItem_checkLockTime :
    stackItem crypto env (.opcode 0xb1) stack = .ok after ↔
      ∃ top rest lock, stack = top :: rest ∧ after = top :: rest ∧
        decodeScriptNum top 5 = .ok lock ∧ 0 ≤ lock ∧ lock ≤ 0x7FFFFFFF ∧
        LockReached env lock.toNat := by
  cases stack with
  | nil =>
      change Except.error ScriptError.emptyStack = .ok after ↔ _
      simp
  | cons top rest =>
      change checkLockTime env (top :: rest) = .ok after ↔ _
      simp only [checkLockTime, pop, ok_bind, bind_eq_ok, rejectIf_eq_ok, pure_eq_ok]
      constructor
      · rintro ⟨lock, decoded, _, nonnegative, _, -, _, small, _, notFinal, _, sameKind, _,
          declared, _, reached, rfl⟩
        refine ⟨top, rest, lock, rfl, rfl, decoded, by simpa using nonnegative,
          by simpa using small, by simpa using notFinal, ?_, by simpa using declared, ?_⟩
        · simpa using sameKind
        · by_cases isTime : 500000000 ≤ lock.toNat
          · simpa [isTime] using reached
          · simpa [isTime] using reached
      · rintro ⟨_, _, lock, same, rfl, decoded, nonnegative, small, met⟩
        cases same
        refine ⟨lock, decoded, (), by simpa using nonnegative, (), ?_, (),
          by simpa using small, (), by simpa using met.notFinal, (), ?_, (),
          by simpa using met.declared, (), ?_, rfl⟩
        · simp
          omega
        · simpa using met.sameKind
        · have reached := met.reached
          by_cases isTime : 500000000 ≤ lock.toNat
          · simpa [isTime] using reached
          · simpa [isTime] using reached

end Opcodes

section Templates

variable {crypto : Crypto} {env : ScriptEnv} {stack after : List Bytes}

/-- `OP_DUP OP_HASH160 <hash> OP_EQUALVERIFY OP_CHECKSIG`. -/
def payToKey (keyHash : Bytes) : List Item :=
  [.opcode 0x76, .opcode 0xa9, .pushData keyHash, .opcode 0x88, .opcode 0xac]

/-- `<lock> OP_CHECKLOCKTIMEVERIFY OP_DROP`. -/
def lockUntil (lock : Bytes) : List Item :=
  [.pushData lock, .opcode 0xb1, .opcode 0x75]

/-- The key check takes a key with the given hash and a signature, and leaves whether
the signature is valid. -/
theorem stackItems_payToKey {keyHash : Bytes} :
    stackItems crypto env (payToKey keyHash) stack = .ok after ↔
      ∃ pubkey sig rest, stack = pubkey :: sig :: rest ∧
        (crypto.hash160 pubkey).toList = keyHash ∧ rest.length + 3 < maxStackDepth ∧
        after = boolToBytes (crypto.signatureValid env.txHash sig pubkey) :: rest := by
  simp only [payToKey, stackItems, bind_eq_ok, stackItem_dup, stackItem_hash160,
    stackItem_push, stackItem_equalVerify, stackItem_checkSig]
  constructor
  · rintro ⟨_, ⟨pubkey, below, rfl, rfl⟩, _, ⟨_, _, hashed, rfl⟩, _, ⟨room, rfl⟩, _,
      ⟨value, compared⟩, _, ⟨_, sig, rest, rfl, rfl⟩, same⟩
    cases same
    cases hashed
    cases compared
    exact ⟨pubkey, sig, rest, rfl, rfl, room, rfl⟩
  · rintro ⟨pubkey, sig, rest, rfl, rfl, room, rfl⟩
    exact ⟨_, ⟨pubkey, _, rfl, rfl⟩, _, ⟨pubkey, _, rfl, rfl⟩, _, ⟨room, rfl⟩, _,
      ⟨_, rfl⟩, _, ⟨pubkey, sig, rest, rfl, rfl⟩, rfl⟩

theorem stackItems_lockUntil {lockBytes : Bytes} :
    stackItems crypto env (lockUntil lockBytes) stack = .ok after ↔
      after = stack ∧ stack.length < maxStackDepth ∧ ∃ lock : Int,
        decodeScriptNum lockBytes 5 = .ok lock ∧ 0 ≤ lock ∧ lock ≤ 0x7FFFFFFF ∧
        LockReached env lock.toNat := by
  simp only [lockUntil, stackItems, bind_eq_ok, stackItem_push, stackItem_checkLockTime,
    stackItem_drop]
  constructor
  · rintro ⟨_, ⟨room, rfl⟩, _, ⟨_, _, lock, pushed, rfl, met⟩, _, ⟨_, dropped⟩, same⟩
    cases same
    cases pushed
    cases dropped
    exact ⟨rfl, room, lock, met⟩
  · rintro ⟨rfl, room, lock, met⟩
    exact ⟨_, ⟨room, rfl⟩, _, ⟨_, _, lock, rfl, rfl, met⟩, _, ⟨_, rfl⟩, rfl⟩

end Templates

section LockBytes

theorem toNat_and_127 (byte : UInt8) : (byte &&& 0x7f).toNat = byte.toNat % 128 := by
  rw [UInt8.toNat_and]
  exact Nat.and_two_pow_sub_one_eq_mod byte.toNat 7

theorem and_128_ne_zero (byte : UInt8) : (byte &&& 0x80 != 0) = decide (128 ≤ byte.toNat) := by
  have value : (byte &&& 0x80).toNat = (byte.toNat.testBit 7).toNat * 2 ^ 7 := by
    rw [UInt8.toNat_and]
    exact Nat.and_two_pow byte.toNat 7
  have small := byte.toNat_lt
  have bit : byte.toNat.testBit 7 = decide (128 ≤ byte.toNat) := by
    rw [Nat.testBit_eq_decide_div_mod_eq, decide_eq_decide]
    omega
  rw [bit] at value
  rw [Bool.eq_iff_iff, bne_iff_ne, ne_eq, ← UInt8.toNat_inj, value, decide_eq_true_iff]
  by_cases large : 128 ≤ byte.toNat <;> simp [large]

/-- Four little-endian bytes are read as a number whose highest bit is a sign. -/
theorem decodeScriptNum_encodeU32 (lock : UInt32) :
    decodeScriptNum (encodeU32 lock) 5 =
      .ok (if lock.toNat < 2 ^ 31 then (lock.toNat : Int)
        else -(lock.toNat - 2 ^ 31 : Int)) := by
  have bounded := lock.toNat_lt
  set number := lock.toNat with numberDef
  have bytes : encodeU32 lock = [UInt8.ofNat number, UInt8.ofNat (number / 256),
      UInt8.ofNat (number / 256 / 256), UInt8.ofNat (number / 256 / 256 / 256)] := rfl
  have magnitude : leValue ([UInt8.ofNat number, UInt8.ofNat (number / 256),
      UInt8.ofNat (number / 256 / 256)] ++
        [UInt8.ofNat (number / 256 / 256 / 256) &&& 0x7f]) = number % 2 ^ 31 := by
    simp only [List.cons_append, List.nil_append, leValue, toNat_and_127,
      UInt8.toNat_ofNat']
    omega
  rw [decodeScriptNum, bytes]
  simp only [List.getLast?_cons_cons, List.getLast?_singleton, List.dropLast_cons_cons,
    List.dropLast_singleton, magnitude, and_128_ne_zero, UInt8.toNat_ofNat',
    List.length_cons, List.length_nil]
  rw [if_neg (by omega), if_neg (by omega)]
  by_cases small : number < 2 ^ 31
  · rw [if_pos small, if_neg (by simp; omega)]
    congr 1
    omega
  · rw [if_neg small, if_pos (by simp; omega)]
    congr 1
    omega

end LockBytes

section Run

variable {crypto : Crypto} {env : ScriptEnv}

/-- Running an assembled conditional is running the selected branch on the stack below
the selector. -/
theorem run_ifElse {first second : List Item}
    (encodable : ∀ item ∈ ifElse first second, item.Encodable)
    (onFirst : ∀ item ∈ first, OnStack item) (onSecond : ∀ item ∈ second, OnStack item)
    (fits : (ifElse first second).length ≤ maxScriptExecSteps) {start final : Stacks} :
    run crypto env (assemble (ifElse first second)) start = .ok final ↔
      ∃ top rest after, start.stack = top :: rest ∧
        stackItems crypto env (if isTrue top then first else second) rest = .ok after ∧
        final = ⟨after, start.altStack⟩ := by
  obtain ⟨stack, altStack⟩ := start
  rw [run, validate_assemble encodable, items_assemble encodable,
    runItems_eq_execItems (by omega), ok_bind]
  cases stack with
  | nil => simp [execItems_ifElse_empty]
  | cons top rest =>
      rw [execItems_ifElse (fun item member => (onFirst item member).straight)
        (fun item member => (onSecond item member).straight), execItems_onStack ?onChosen]
      case onChosen =>
        split
        · exact onFirst
        · exact onSecond
      simp only [bind_eq_ok, rejectIf_eq_ok, pure_eq_ok]
      constructor
      · rintro ⟨_, ⟨_, ⟨after, ran, same⟩, ended⟩, _, -, rfl⟩
        cases same
        cases ended
        exact ⟨top, rest, after, rfl, ran, rfl⟩
      · rintro ⟨_, _, after, same, ran, rfl⟩
        cases same
        exact ⟨_, ⟨_, ⟨after, ran, rfl⟩, rfl⟩, (), rfl, rfl⟩

theorem run_onStack {items : List Item} (encodable : ∀ item ∈ items, item.Encodable)
    (onStack : ∀ item ∈ items, OnStack item) (fits : items.length ≤ maxScriptExecSteps)
    {start final : Stacks} :
    run crypto env (assemble items) start = .ok final ↔
      ∃ after, stackItems crypto env items start.stack = .ok after ∧
        final = ⟨after, start.altStack⟩ := by
  obtain ⟨stack, altStack⟩ := start
  rw [run, validate_assemble encodable, items_assemble encodable,
    runItems_eq_execItems (by omega), ok_bind, execItems_onStack onStack]
  simp only [bind_eq_ok, rejectIf_eq_ok, pure_eq_ok]
  constructor
  · rintro ⟨_, ⟨after, ran, same⟩, _, -, rfl⟩
    cases same
    exact ⟨after, ran, rfl⟩
  · rintro ⟨after, ran, rfl⟩
    exact ⟨_, ⟨after, ran, rfl⟩, (), rfl, rfl⟩

theorem stackItems_pushes {data stack : List Bytes}
    (room : data.length + stack.length ≤ maxStackDepth) :
    stackItems crypto env (data.map Item.pushData) stack = .ok (data.reverse ++ stack) := by
  induction data generalizing stack with
  | nil => rfl
  | cons first data ih =>
      rw [List.length_cons] at room
      have pushed : stackItem crypto env (.pushData first) stack = .ok (first :: stack) :=
        stackItem_push.mpr ⟨by omega, rfl⟩
      rw [List.map_cons, stackItems, pushed, ok_bind,
        ih (by rw [List.length_cons]; omega), List.reverse_cons, List.append_assoc]
      rfl

theorem runSig_pushes {script : Script} {data : List Bytes} (valid : script.validate = .ok ())
    (pushes : script.items = data.map Item.pushData)
    (few : data.length ≤ maxScriptExecSteps) :
    runSig crypto env script = .ok ⟨data.reverse, []⟩ := by
  have onStack : ∀ item ∈ data.map Item.pushData, OnStack item := by
    intro item member
    obtain ⟨_, -, rfl⟩ := List.mem_map.mp member
    trivial
  have room : data.length + ([] : List Bytes).length ≤ maxStackDepth := by
    unfold maxScriptExecSteps at few
    unfold maxStackDepth
    simp
    omega
  rw [runSig, run, valid, ok_bind, pushes, runItems_eq_execItems (by simpa using few),
    execItems_onStack onStack, stackItems_pushes room, List.append_nil]
  rfl

theorem requireTop_eq_ok {stack : List Bytes} :
    requireTop stack = .ok () ↔ ∃ top rest, stack = top :: rest ∧ isTrue top = true := by
  cases stack <;> simp [requireTop, pop]

theorem execute_eq_ok {scriptSig scriptPubkey : Script}
    (ordinary : isP2sh scriptPubkey = false) :
    execute crypto env scriptSig scriptPubkey = .ok () ↔
      ∃ afterSig final, runSig crypto env scriptSig = .ok afterSig ∧
        run crypto env scriptPubkey afterSig = .ok final ∧
        ∃ top rest, final.stack = top :: rest ∧ isTrue top = true := by
  simp [execute, ordinary, requireTop_eq_ok]

theorem execute_p2sh_eq_ok {scriptSig scriptPubkey : Script}
    (hashed : isP2sh scriptPubkey = true) :
    execute crypto env scriptSig scriptPubkey = .ok () ↔
      ∃ afterSig final, runSig crypto env scriptSig = .ok afterSig ∧
        run crypto env scriptPubkey afterSig = .ok final ∧
        (∃ top rest, final.stack = top :: rest ∧ isTrue top = true) ∧
        runRedeem crypto env afterSig.stack final.altStack = .ok () := by
  simp only [execute, hashed, if_true, bind_eq_ok]
  constructor
  · rintro ⟨afterSig, ranSig, final, ran, _, truthy, redeemed⟩
    exact ⟨afterSig, final, ranSig, ran, requireTop_eq_ok.mp truthy, redeemed⟩
  · rintro ⟨afterSig, final, ranSig, ran, truthy, redeemed⟩
    exact ⟨afterSig, ranSig, final, ran, (), requireTop_eq_ok.mpr truthy, redeemed⟩

theorem isTrue_boolToBytes (value : Bool) : isTrue (boolToBytes value) = value := by
  cases value <;> rfl

end Run

end Engine

end Vtorrent
