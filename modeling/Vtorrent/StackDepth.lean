import Vtorrent.BalancedConditionals

/-!
# The depth of the main stack

The depth limit is checked when data is pushed.  The other opcodes that put items on the
stack do not check it, so the stack can grow beyond the limit.
-/

namespace Vtorrent

open Checked

namespace Engine

open Script

/-- How many items an executed opcode adds to the main stack. -/
def gain (op : UInt8) (stack : List Bytes) : Nat :=
  match op.toNat with
  | 0x4f | 0x6c | 0x74 | 0x76 | 0x79 | 0x7d | 0x82 => 1
  | 0x73 => if stack.head?.any isTrue then 1 else 0
  | 0x6e | 0x70 => 2
  | 0x6f => 3
  | number => if 0x51 ≤ number ∧ number ≤ 0x60 then 1 else 0

section Lengths

variable {crypto : Crypto} {env : ScriptEnv} {stack after : List Bytes} {bound : Nat}

/-- The stack that is left, if any, has at most the given depth. -/
def Within (bound : Nat) (computation : Except ScriptError (List Bytes)) : Prop :=
  ∀ after, computation = .ok after → after.length ≤ bound

theorem Within.ok (bounded : after.length ≤ bound) : Within bound (.ok after) := by
  intro result same
  cases same
  exact bounded

theorem Within.mono {larger : Nat} {computation : Except ScriptError (List Bytes)}
    (within : Within bound computation) (wider : bound ≤ larger) :
    Within larger computation :=
  fun after ran => (within after ran).trans wider

theorem Within.error (error : ScriptError) : Within bound (.error error) := nofun

theorem Within.reject {condition : Bool} {error : ScriptError}
    {rest : Unit → Except ScriptError (List Bytes)} (bounded : Within bound (rest ())) :
    Within bound (rejectIf condition error >>= rest) := by
  cases condition with
  | false => exact bounded
  | true => exact .error error

theorem Within.pop {rest : Bytes × List Bytes → Except ScriptError (List Bytes)}
    (bounded : ∀ top below, stack = top :: below → Within bound (rest (top, below))) :
    Within bound (pop stack >>= rest) := by
  cases stack with
  | nil => exact .error _
  | cons top below => exact bounded top below rfl

theorem Within.popNum {rest : Int × List Bytes → Except ScriptError (List Bytes)}
    (bounded : ∀ number top below, stack = top :: below → Within bound (rest (number, below))) :
    Within bound (popNum stack >>= rest) := by
  rw [Engine.popNum, bind_assoc]
  refine .pop fun top below shape => ?_
  dsimp only
  cases decodeScriptNum top maxArithNumLen with
  | error error => exact .error error
  | ok number => exact bounded number top below shape

theorem Within.popNums {rest : Int × Int × List Bytes → Except ScriptError (List Bytes)}
    (bounded : ∀ a b second first below, stack = second :: first :: below →
      Within bound (rest (a, b, below))) :
    Within bound (popNums stack >>= rest) := by
  rw [Engine.popNums, bind_assoc]
  refine .popNum fun b second others shape => ?_
  dsimp only
  rw [bind_assoc]
  refine .popNum fun a first below shape' => ?_
  subst shape'
  exact bounded a b second first below shape

theorem Within.popIndex {limit : Int → Nat → Bool}
    {rest : Nat × List Bytes → Except ScriptError (List Bytes)}
    (bounded : ∀ number top below, stack = top :: below → Within bound (rest (number, below))) :
    Within bound (popIndex stack limit >>= rest) := by
  rw [Engine.popIndex, bind_assoc]
  refine .popNum fun number top below shape => ?_
  dsimp only
  rw [bind_assoc]
  exact .reject (bounded _ top below shape)

theorem Within.checkSig {sig pubkey : Bytes} {rest : Unit → Except ScriptError (List Bytes)}
    (bounded : Within bound (rest ())) :
    Within bound (checkSig crypto env sig pubkey >>= rest) := by
  cases Engine.checkSig crypto env sig pubkey with
  | error error => exact .error error
  | ok value => exact bounded

theorem within_pushArith (room : stack.length + 1 ≤ bound) (result : Option Int) :
    Within bound (pushArith stack result) := by
  unfold pushArith
  split
  · exact .error _
  · dsimp only
    split
    · exact .error _
    · exact .ok room

theorem within_checkMultisig {verify : Bool} :
    Within stack.length (checkMultisig crypto env verify stack) := by
  intro after ran
  obtain ⟨keys, sigs, below, success, ⟨_, _, rfl, -, -⟩, -, -, -, rfl⟩ :=
    checkMultisig_eq_ok.mp ran
  simp
  omega

theorem checkLockTime_unchanged (ran : checkLockTime env stack = .ok after) : after = stack := by
  simp only [checkLockTime, bind_eq_ok, pure_eq_ok] at ran
  obtain ⟨_, -, _, -, _, -, _, -, _, -, _, -, _, -, _, -, _, -, same⟩ := ran
  exact same.symm

theorem checkSequence_unchanged (ran : checkSequence env stack = .ok after) : after = stack := by
  simp only [checkSequence, bind_eq_ok] at ran
  obtain ⟨_, -, _, -, _, -, _, -, ran⟩ := ran
  split at ran
  · cases ran
    rfl
  · simp only [bind_eq_ok, pure_eq_ok] at ran
    obtain ⟨_, -, _, -, _, -, _, -, same⟩ := ran
    exact same.symm

theorem within_hashTop (digest : Bytes → Bytes) : Within stack.length (hashTop digest stack) :=
  .pop fun top below shape => .ok (by simp [shape])

theorem within_unaryArith (operation : Int → Int) :
    Within stack.length (unaryArith operation stack) :=
  .popNum fun number top below shape => within_pushArith (by simp [shape]) _

theorem within_binaryArith (operation : Int → Int → Option Int) :
    Within stack.length (binaryArith operation stack) :=
  .popNums fun a b second first below shape => within_pushArith (by simp [shape]) _

theorem within_binaryTest (test : Int → Int → Bool) :
    Within stack.length (binaryTest test stack) :=
  .popNums fun a b second first below shape => .ok (by simp [shape])

theorem gain_small {op : UInt8} (small : 0x51 ≤ op.toNat ∧ op.toNat ≤ 0x60) :
    gain op stack = 1 := by
  unfold gain
  split
  all_goals first | rfl | omega | exact if_pos small

theorem within_execStack (op : UInt8) :
    Within (stack.length + gain op stack) (execStack crypto env op stack) := by
  unfold execStack
  split
  case h_57 =>
    split
    · rename_i small
      rw [gain_small small]
      exact .ok le_rfl
    · exact .error _
  case h_2 | h_5 | h_7 | h_10 | h_11 | h_14 | h_18 | h_55 | h_56 =>
    rename_i is
    simp only [gain, is]
    first
      | exact .ok le_rfl
      | exact .pop fun _ _ _ => .ok le_rfl
      | (split
         · exact .ok le_rfl
         · exact .error _)
  case h_9 =>
    rename_i is
    simp only [gain, is]
    refine .pop fun top below shape => .ok ?_
    subst shape
    cases truthy : isTrue top <;> simp [truthy]
  all_goals refine Within.mono ?_ (Nat.le_add_right _ _)
  all_goals with_reducible first
    | exact within_checkMultisig
    | exact within_hashTop _
    | exact within_unaryArith _
    | exact within_binaryArith _
    | exact within_binaryTest _
    | refine .pop fun top below shape => ?_
    | refine .popNum fun number top below shape => ?_
    | refine .popNums fun a b second first below shape => ?_
    | refine .popIndex fun number top below shape => ?_
    | skip
  case h_1 | h_46 => exact .reject (.ok (by grind))
  case h_16 =>
    have shorter := List.length_eraseIdx_le below number
    exact .ok (by simp only [shape, List.length_cons]; omega)
  case h_20 =>
    split
    · split
      · exact .ok (by grind)
      · exact .error _
    · exact .error _
  case h_27 =>
    split
    · exact .checkSig (.ok (by grind))
    · exact .error _
  case h_30 => exact fun after ran => (congrArg List.length (checkLockTime_unchanged ran)).le
  case h_31 => exact fun after ran => (congrArg List.length (checkSequence_unchanged ran)).le
  case h_54 =>
    exact .popNum fun _ _ _ middle => .popNum fun _ _ _ lowest => .ok (by grind)
  all_goals first
    | exact .ok (by grind)
    | (split
       · exact .ok (by simp only [List.length_cons]; omega)
       · exact .error _)

theorem execStack_gain {op : UInt8} (gains : 0 < gain op stack)
    (ran : execStack crypto env op stack = .ok after) :
    after.length = stack.length + gain op stack := by
  unfold execStack at ran
  split at ran
  case h_57 =>
    split at ran
    · rename_i small
      rw [gain_small small]
      cases ran
      rfl
    · cases ran
  case h_2 | h_5 | h_7 | h_10 | h_11 | h_14 | h_18 | h_55 | h_56 =>
    rename_i is
    simp only [gain, is]
    first
      | (cases ran; rfl)
      | (cases stack <;> cases ran; rfl)
      | (split at ran <;> cases ran; rfl)
  case h_9 =>
    rename_i is
    simp only [gain, is] at gains ⊢
    cases stack with
    | nil => cases ran
    | cons top below =>
        cases ran
        cases truthy : isTrue top <;> simp_all
  all_goals
    rename_i is
    simp [gain, is] at gains

end Lengths

section Steps

variable {crypto : Crypto} {env : ScriptEnv}

theorem execOpcode_skipped {op : UInt8} {state after : RunState}
    (skipped : state.executing = false)
    (ran : execOpcode crypto env op state = .ok after) : after.stack = state.stack := by
  unfold execOpcode at ran
  simp only [skipped, Bool.false_eq_true, if_false] at ran
  split at ran <;> cases ran <;> rfl

theorem execOpcode_gain {op : UInt8} {state after : RunState}
    (executing : state.executing = true)
    (ran : execOpcode crypto env op state = .ok after) :
    after.stack.length ≤ state.stack.length + gain op state.stack ∧
      (0 < gain op state.stack →
        after.stack.length = state.stack.length + gain op state.stack) := by
  obtain ⟨⟨stack, altStack⟩, _, ifStack⟩ := state
  obtain rfl : _ = true := executing
  unfold execOpcode at ran
  simp only [if_true] at ran
  split at ran
  case h_10 =>
    obtain ⟨result, computed, same⟩ := bind_eq_ok.mp ran
    cases same
    exact ⟨within_execStack op _ computed, fun gains => execStack_gain gains computed⟩
  case h_9 =>
    rename_i is
    obtain ⟨⟨top, rest⟩, popped, same⟩ := bind_eq_ok.mp ran
    cases same
    simp [gain, is]
  case h_1 | h_2 | h_8 =>
    rename_i is
    cases stack <;> cases ran
    simp [gain, is]
  case h_6 => cases ran
  all_goals
    rename_i is
    cases ran
    simp [gain, is]

/-- The item is an opcode that puts more on the stack than the limit leaves room for. -/
def Overfills (item : Item) (state : RunState) : Prop :=
  ∃ op, item = .opcode op ∧ state.executing = true ∧
    maxStackDepth < state.stack.length + gain op state.stack

theorem execItem_bounded_iff {item : Item} {state after : RunState}
    (bounded : state.stack.length ≤ maxStackDepth)
    (ran : execItem crypto env item state = .ok after) :
    after.stack.length ≤ maxStackDepth ↔ ¬ Overfills item state := by
  cases item with
  | pushData data =>
      refine iff_of_true ?_ (by rintro ⟨_, other, -⟩; cases other)
      simp only [execItem] at ran
      split at ran
      · split at ran <;> cases ran
        simp only [List.length_cons]
        omega
      · cases ran
        exact bounded
  | opcode op =>
      cases executing : state.executing with
      | false =>
          refine iff_of_true ?_ (by rintro ⟨_, -, other, -⟩; rw [executing] at other; cases other)
          rw [execOpcode_skipped executing ran]
          exact bounded
      | true =>
          obtain ⟨most, exactly⟩ := execOpcode_gain executing ran
          constructor
          · rintro small ⟨_, same, -, tooDeep⟩
            cases same
            have deeper := exactly (by omega)
            omega
          · intro room
            have fits : state.stack.length + gain op state.stack ≤ maxStackDepth := by
              by_contra tooDeep
              exact room ⟨op, rfl, executing, by omega⟩
            omega

end Steps

section Runs

variable {crypto : Crypto} {env : ScriptEnv} {scriptSig scriptPubkey : Script}

theorem runItems_append {steps : Nat} (first second : List Item) (state : RunState) :
    runItems crypto env steps (first ++ second) state =
      runItems crypto env steps first state >>=
        runItems crypto env (steps + first.length) second := by
  induction first generalizing steps state with
  | nil => rfl
  | cons item first ih =>
      rw [List.cons_append, runItems, runItems]
      split
      · rfl
      · rw [bind_assoc]
        congr 1
        funext next
        rw [ih, List.length_cons, Nat.add_assoc, Nat.add_comm 1]

/-- The scripts that an execution runs, with the stacks they start from. -/
inductive Runs (crypto : Crypto) (env : ScriptEnv) (scriptSig scriptPubkey : Script) :
    Script → Stacks → Prop
  | scriptSig : Runs crypto env scriptSig scriptPubkey scriptSig ⟨[], []⟩
  | scriptPubkey {afterSig : Stacks} (ranSig : runSig crypto env scriptSig = .ok afterSig) :
      Runs crypto env scriptSig scriptPubkey scriptPubkey afterSig
  | redeem {afterSig afterPubkey : Stacks} {top : Bytes} {rest : List Bytes} {script : Script}
      (ranSig : runSig crypto env scriptSig = .ok afterSig)
      (ranPubkey : run crypto env scriptPubkey afterSig = .ok afterPubkey)
      (accepted : requireTop afterPubkey.stack = .ok ())
      (hashed : isP2sh scriptPubkey = true) (popped : pop afterSig.stack = .ok (top, rest))
      (sized : Script.fromBytes top = .ok script) :
      Runs crypto env scriptSig scriptPubkey script ⟨rest, afterPubkey.altStack⟩

/-- A state that an execution gets into: some items of a script it runs have been done. -/
def Visited (crypto : Crypto) (env : ScriptEnv) (scriptSig scriptPubkey : Script)
    (state : RunState) : Prop :=
  ∃ script start done remaining, Runs crypto env scriptSig scriptPubkey script start ∧
    script.validate = .ok () ∧ script.items = done ++ remaining ∧
    runItems crypto env 0 done (begin start) = .ok state

/-- A step that an execution takes: an item that succeeds in a state it gets into. -/
def Taken (crypto : Crypto) (env : ScriptEnv) (scriptSig scriptPubkey : Script)
    (item : Item) (state : RunState) : Prop :=
  ∃ script start done remaining after, Runs crypto env scriptSig scriptPubkey script start ∧
    script.validate = .ok () ∧ script.items = done ++ item :: remaining ∧
    runItems crypto env 0 done (begin start) = .ok state ∧
    runItems crypto env 0 (done ++ [item]) (begin start) = .ok after

theorem runItems_concat {done : List Item} {item : Item} {start after : RunState}
    (ran : runItems crypto env 0 (done ++ [item]) start = .ok after) :
    ∃ state, runItems crypto env 0 done start = .ok state ∧
      execItem crypto env item state = .ok after := by
  rw [runItems_append, bind_eq_ok] at ran
  obtain ⟨state, before, last⟩ := ran
  refine ⟨state, before, ?_⟩
  rw [runItems] at last
  split at last
  · cases last
  · obtain ⟨next, stepped, ended⟩ := bind_eq_ok.mp last
    cases ended
    exact stepped

theorem script_bounded
    (roomy : ∀ item state, Taken crypto env scriptSig scriptPubkey item state →
      ¬ Overfills item state)
    {script : Script} {start : Stacks}
    (runs : Runs crypto env scriptSig scriptPubkey script start)
    (bounded : start.stack.length ≤ maxStackDepth) (valid : script.validate = .ok ())
    {done remaining : List Item} {state : RunState}
    (split : script.items = done ++ remaining)
    (ran : runItems crypto env 0 done (begin start) = .ok state) :
    state.stack.length ≤ maxStackDepth := by
  induction done using List.reverseRecOn generalizing remaining state with
  | nil =>
      cases ran
      exact bounded
  | append_singleton done item ih =>
      obtain ⟨before, ranBefore, stepped⟩ := runItems_concat ran
      have parts : script.items = done ++ item :: remaining := by simpa using split
      have smaller := ih parts ranBefore
      exact (execItem_bounded_iff smaller stepped).mpr
        (roomy item before ⟨script, start, done, remaining, state, runs, valid, parts,
          ranBefore, ran⟩)

theorem run_bounded
    (roomy : ∀ item state, Taken crypto env scriptSig scriptPubkey item state →
      ¬ Overfills item state)
    {script : Script} {start final : Stacks}
    (runs : Runs crypto env scriptSig scriptPubkey script start)
    (bounded : start.stack.length ≤ maxStackDepth)
    (ran : run crypto env script start = .ok final) : final.stack.length ≤ maxStackDepth := by
  obtain ⟨valid, -, state, stepped, rfl⟩ := run_eq_ok.mp ran
  exact script_bounded roomy runs bounded valid (List.append_nil _).symm stepped

theorem start_bounded
    (roomy : ∀ item state, Taken crypto env scriptSig scriptPubkey item state →
      ¬ Overfills item state)
    {script : Script} {start : Stacks}
    (runs : Runs crypto env scriptSig scriptPubkey script start) :
    start.stack.length ≤ maxStackDepth := by
  have afterSigBounded : ∀ afterSig, runSig crypto env scriptSig = .ok afterSig →
      afterSig.stack.length ≤ maxStackDepth :=
    fun afterSig ran => run_bounded roomy .scriptSig (Nat.zero_le _) ran
  cases runs with
  | scriptSig => exact Nat.zero_le _
  | scriptPubkey ranSig => exact afterSigBounded _ ranSig
  | @redeem afterSig afterPubkey top rest script ranSig ranPubkey accepted hashed popped sized =>
      have bounded := afterSigBounded _ ranSig
      obtain ⟨stack, altStack⟩ := afterSig
      cases stack with
      | nil => cases popped
      | cons first others =>
          cases popped
          simp only [List.length_cons] at bounded
          exact Nat.le_of_succ_le bounded

end Runs

/-- The main stack stays within the limit throughout an execution exactly when no opcode is
executed that puts more on the stack than the limit leaves room for. -/
theorem depth_bounded_iff (crypto : Crypto) (env : ScriptEnv)
    (scriptSig scriptPubkey : Script) :
    (∀ state, Visited crypto env scriptSig scriptPubkey state →
        state.stack.length ≤ maxStackDepth) ↔
      ∀ item state, Taken crypto env scriptSig scriptPubkey item state →
        ¬ Overfills item state := by
  constructor
  · rintro bounded item state ⟨script, start, done, remaining, after, runs, valid, parts,
      ranBefore, ran⟩
    obtain ⟨_, again, stepped⟩ := runItems_concat ran
    cases ranBefore.symm.trans again
    have before := bounded state ⟨script, start, done, _, runs, valid, parts, ranBefore⟩
    refine (execItem_bounded_iff before stepped).mp (bounded after ?_)
    exact ⟨script, start, done ++ [item], remaining, runs, valid, by simpa using parts, ran⟩
  · rintro roomy state ⟨script, start, done, remaining, runs, valid, parts, ran⟩
    exact script_bounded roomy runs (start_bounded roomy runs) valid parts ran

section Tripled

variable {crypto : Crypto} {env : ScriptEnv}

/-- Each `OP_3DUP` adds three items. -/
theorem stackItems_tripled (count : Nat) {stack : List Bytes} (enough : 3 ≤ stack.length) :
    ∃ after, stackItems crypto env (List.replicate count (.opcode 0x6f)) stack = .ok after ∧
      after.length = stack.length + 3 * count := by
  induction count generalizing stack with
  | zero => exact ⟨stack, rfl, rfl⟩
  | succ count ih =>
      obtain ⟨c, b, a, rest, rfl⟩ : ∃ c b a rest, stack = c :: b :: a :: rest := by
        match stack with
        | c :: b :: a :: rest => exact ⟨c, b, a, rest, rfl⟩
        | [] | [_] | [_, _] => simp at enough
      obtain ⟨after, ran, depth⟩ := @ih (c :: b :: a :: c :: b :: a :: rest) (by simp)
      refine ⟨after, ran, ?_⟩
      rw [depth]
      simp only [List.length_cons]
      omega

end Tripled

def Keyed.tripledSig : List Item :=
  List.replicate 3 (.opcode 0x51) ++ List.replicate 197 (.opcode 0x6f)

def Keyed.tripledPubkey : List Item := List.replicate 200 (.opcode 0x6f)

theorem Keyed.tripled_items {holds : Item → Prop} (number : holds (.opcode 0x51))
    (tripled : holds (.opcode 0x6f)) :
    (∀ item ∈ Keyed.tripledSig, holds item) ∧ ∀ item ∈ Keyed.tripledPubkey, holds item := by
  constructor
  · intro item member
    rcases List.mem_append.mp member with first | second
    · rwa [List.eq_of_mem_replicate first]
    · rwa [List.eq_of_mem_replicate second]
  · intro item member
    rwa [List.eq_of_mem_replicate member]

/-- Two scripts of 200 opcodes each leave 1194 items on the stack. -/
theorem stack_outgrows_limit :
    ∃ state, Visited Keyed.crypto Keyed.env (assemble Keyed.tripledSig)
      (assemble Keyed.tripledPubkey) state ∧ state.stack.length = 1194 := by
  obtain ⟨sigEncodable, pubkeyEncodable⟩ := Keyed.tripled_items
    (by decide : Item.Encodable (.opcode 0x51)) (by decide : Item.Encodable (.opcode 0x6f))
  obtain ⟨sigOnStack, pubkeyOnStack⟩ := Keyed.tripled_items
    (by decide : OnStack (.opcode 0x51)) (by decide : OnStack (.opcode 0x6f))
  obtain ⟨afterSig, sigRan, sigDepth⟩ :=
    @stackItems_tripled Keyed.crypto Keyed.env 197 [[1], [1], [1]] le_rfl
  have ranSig : runSig Keyed.crypto Keyed.env (assemble Keyed.tripledSig) =
      .ok ⟨afterSig, []⟩ := by
    have few : Keyed.tripledSig.length ≤ maxScriptExecSteps := by
      rw [Keyed.tripledSig, List.length_append, List.length_replicate, List.length_replicate]
      decide
    have numbers : stackItems Keyed.crypto Keyed.env (List.replicate 3 (.opcode 0x51)) [] =
        .ok [[1], [1], [1]] := rfl
    refine (run_onStack sigEncodable sigOnStack few).mpr ⟨afterSig, ?_, rfl⟩
    rw [Keyed.tripledSig, stackItems_append, numbers, ok_bind, sigRan]
  obtain ⟨after, ran, depth⟩ := @stackItems_tripled Keyed.crypto Keyed.env 200 afterSig
    (by rw [sigDepth]; decide)
  refine ⟨⟨⟨after, []⟩, true, []⟩, ⟨_, _, Keyed.tripledPubkey, [], .scriptPubkey ranSig,
    validate_assemble pubkeyEncodable, ?_, ?_⟩, ?_⟩
  · rw [items_assemble pubkeyEncodable, List.append_nil]
  · have few : 0 + Keyed.tripledPubkey.length ≤ maxScriptExecSteps := by
      rw [Keyed.tripledPubkey, List.length_replicate]
      decide
    rw [runItems_eq_execItems few, begin, execItems_onStack pubkeyOnStack,
      Keyed.tripledPubkey, ran, ok_bind]
  · rw [depth, sigDepth]
    rfl

end Engine

end Vtorrent
