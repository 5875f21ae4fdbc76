import Vtorrent.Multisig

/-!
# Balanced conditionals

The engine keeps the conditionals that are open and reports an unbalanced script when some
are left at the end.  `OP_ELSE` and `OP_ENDIF` outside of a conditional are not reported,
so a script with such a stray opcode is accepted unless it fails otherwise.
-/

namespace Vtorrent

open Checked

namespace Engine

open Script

def opens (item : Item) : Bool := item == .opcode 0x63 || item == .opcode 0x64

def closes (item : Item) : Bool := item == .opcode 0x68

def nested (item : Item) : Bool := item == .opcode 0x67 || item == .opcode 0x68

def InConditional (items : List Item) : Prop := items.countP closes < items.countP opens

instance (items : List Item) : Decidable (InConditional items) := by
  unfold InConditional
  infer_instance

/-- Some `OP_ELSE` or `OP_ENDIF` stands outside of an open conditional. -/
def Stray (items : List Item) : Prop :=
  ∃ before item after, items = before ++ item :: after ∧ nested item = true ∧
    ¬ InConditional before

/-- Every `OP_ELSE` and `OP_ENDIF` stands inside an open conditional and every conditional is
closed. -/
def Balanced (items : List Item) : Prop :=
  ¬ Stray items ∧ items.countP closes = items.countP opens

/-- How many conditionals the engine holds open after an item; closing none does nothing. -/
def heldAfter (held : Nat) (item : Item) : Nat :=
  if opens item then held + 1 else if closes item then held - 1 else held

/-- How many conditionals the engine holds open at the end of a script. -/
def leftOpen (items : List Item) : Nat := items.foldl heldAfter 0

section Nesting

variable {items : List Item} {item : Item}

theorem Stray.append (stray : Stray items) (others : List Item) : Stray (items ++ others) := by
  obtain ⟨before, item, after, rfl, belongs, outside⟩ := stray
  exact ⟨before, item, after ++ others, by simp, belongs, outside⟩

/-- Without stray opcodes the engine's count is the number of open conditionals. -/
theorem leftOpen_add_closed (clean : ¬ Stray items) :
    leftOpen items + items.countP closes = items.countP opens := by
  induction items using List.reverseRecOn with
  | nil => rfl
  | append_singleton items item ih =>
      have counted := ih fun stray => clean (stray.append [item])
      have inside : closes item = true → InConditional items := by
        intro closing
        by_contra outside
        refine clean ⟨items, item, [], rfl, ?_, outside⟩
        simp only [closes, nested] at closing ⊢
        simp [closing]
      have apart : opens item = true → closes item = false := by
        intro opening
        simp only [opens, closes, Bool.or_eq_true, beq_iff_eq] at opening ⊢
        rcases opening with rfl | rfl <;> rfl
      rw [leftOpen, List.foldl_concat, ← leftOpen, heldAfter, List.countP_append,
        List.countP_append, List.countP_singleton, List.countP_singleton]
      by_cases opening : opens item = true
      · rw [if_pos opening, if_pos opening, apart opening]
        simp only [Bool.false_eq_true, if_false]
        omega
      · rw [if_neg opening, if_neg opening]
        by_cases closing : closes item = true
        · have held := inside closing
          rw [if_pos closing, if_pos closing]
          unfold InConditional at held
          omega
        · rw [if_neg closing, if_neg closing]
          exact counted

end Nesting

section Steps

variable {crypto : Crypto} {env : ScriptEnv}

/-- An item changes the number of open conditionals by what it is alone. -/
theorem execItem_held {item : Item} {state after : RunState}
    (ran : execItem crypto env item state = .ok after) :
    after.ifStack.length = heldAfter state.ifStack.length item := by
  by_cases straight : Straight item
  · have unchanged : heldAfter state.ifStack.length item = state.ifStack.length := by
      cases item with
      | pushData data => rfl
      | opcode op =>
          obtain ⟨notIf, notNotif, notElse, notEndif, notReturn⟩ := straight
          simp [heldAfter, opens, closes, notIf, notNotif, notEndif]
    rw [unchanged, (execItem_straight straight ran).2]
  · cases item with
    | pushData data => exact absurd trivial straight
    | opcode op =>
        have conditional : op = 0x63 ∨ op = 0x64 ∨ op = 0x67 ∨ op = 0x68 ∨ op = 0x6a := by
          unfold Straight at straight
          tauto
        obtain ⟨⟨stack, altStack⟩, executing, ifStack⟩ := state
        rcases conditional with rfl | rfl | rfl | rfl | rfl
        · cases executing with
          | true =>
              cases stack <;> cases ran
              rfl
          | false =>
              cases ran
              rfl
        · cases executing with
          | true =>
              cases stack <;> cases ran
              rfl
          | false =>
              cases ran
              rfl
        · cases ran
          rfl
        · cases ran
          exact List.length_tail
        · cases ran

theorem runItems_held {steps : Nat} {items : List Item} {state final : RunState}
    (ran : runItems crypto env steps items state = .ok final) :
    final.ifStack.length = items.foldl heldAfter state.ifStack.length := by
  induction items generalizing steps state with
  | nil =>
      cases ran
      rfl
  | cons item items ih =>
      rw [runItems] at ran
      split at ran
      · cases ran
      · obtain ⟨next, stepped, rest⟩ := bind_eq_ok.mp ran
        rw [ih rest, execItem_held stepped, List.foldl_cons]

end Steps

section Errors

variable {α β : Type} {crypto : Crypto} {env : ScriptEnv} {stack : List Bytes}

def Unconditional (computation : Except ScriptError α) : Prop :=
  computation ≠ .error .unbalancedConditional

theorem Unconditional.ok (value : α) : Unconditional (.ok value) := nofun

theorem Unconditional.error {error : ScriptError} (other : error ≠ .unbalancedConditional) :
    Unconditional (.error error : Except ScriptError α) := by
  intro reported
  cases reported
  exact other rfl

theorem Unconditional.bind {first : Except ScriptError α} {rest : α → Except ScriptError β}
    (before : Unconditional first) (then_ : ∀ value, Unconditional (rest value)) :
    Unconditional (first >>= rest) := by
  cases first with
  | ok value => exact then_ value
  | error error =>
      refine .error ?_
      rintro rfl
      exact before rfl

theorem Unconditional.reject {condition : Bool} {error : ScriptError}
    (other : error ≠ .unbalancedConditional) : Unconditional (rejectIf condition error) := by
  cases condition with
  | false => exact .ok ()
  | true => exact .error other

theorem unconditional_pop : Unconditional (pop stack) := by
  cases stack <;> nofun

theorem unconditional_decodeScriptNum (bytes : Bytes) (maxLen : Nat) :
    Unconditional (decodeScriptNum bytes maxLen) := by
  unfold decodeScriptNum
  split
  · nofun
  · split
    · nofun
    · dsimp only
      split
      · nofun
      · split <;> nofun

theorem unconditional_popNum : Unconditional (popNum stack) :=
  unconditional_pop.bind fun _ => (unconditional_decodeScriptNum _ _).bind fun _ => .ok _

theorem unconditional_popNums : Unconditional (popNums stack) :=
  unconditional_popNum.bind fun _ => unconditional_popNum.bind fun _ => .ok _

theorem unconditional_popIndex {bounded : Int → Nat → Bool} :
    Unconditional (popIndex stack bounded) :=
  unconditional_popNum.bind fun _ => (Unconditional.reject (by decide)).bind fun _ => .ok _

theorem unconditional_pushArith (result : Option Int) : Unconditional (pushArith stack result) := by
  unfold pushArith
  split
  · nofun
  · dsimp only
    split <;> nofun

theorem unconditional_checkSig (sig pubkey : Bytes) :
    Unconditional (checkSig crypto env sig pubkey) :=
  (Unconditional.reject (by decide)).bind fun _ => (Unconditional.reject (by decide)).bind
    fun _ => (Unconditional.reject (by decide)).bind fun _ => .reject (by decide)

theorem unconditional_checkMultisig {verify : Bool} :
    Unconditional (checkMultisig crypto env verify stack) := by
  refine unconditional_popIndex.bind ?_
  rintro ⟨keyCount, afterKeys⟩
  refine unconditional_popIndex.bind ?_
  rintro ⟨sigCount, afterSigs⟩
  exact (Unconditional.reject (by simp)).bind fun _ =>
    (Unconditional.reject (by decide)).bind fun _ => .ok _

theorem unconditional_checkLockTime : Unconditional (checkLockTime env stack) :=
  unconditional_pop.bind fun _ => (unconditional_decodeScriptNum _ _).bind fun _ =>
    (Unconditional.reject (by decide)).bind fun _ => (Unconditional.reject (by decide)).bind
      fun _ => (Unconditional.reject (by decide)).bind fun _ =>
        (Unconditional.reject (by decide)).bind fun _ =>
          (Unconditional.reject (by decide)).bind fun _ =>
            (Unconditional.reject (by decide)).bind fun _ =>
              (Unconditional.reject (by decide)).bind fun _ => .ok _

theorem unconditional_checkSequence : Unconditional (checkSequence env stack) := by
  refine unconditional_pop.bind fun _ => (unconditional_decodeScriptNum _ _).bind fun _ =>
    (Unconditional.reject (by decide)).bind fun _ => (Unconditional.reject (by decide)).bind
      fun _ => ?_
  dsimp only
  split
  · exact .ok _
  · exact (Unconditional.reject (by decide)).bind fun _ =>
      (Unconditional.reject (by decide)).bind fun _ =>
        (Unconditional.reject (by decide)).bind fun _ =>
          (Unconditional.reject (by decide)).bind fun _ => .ok _

theorem unconditional_hashTop (digest : Bytes → Bytes) : Unconditional (hashTop digest stack) :=
  unconditional_pop.bind fun _ => .ok _

theorem unconditional_unaryArith (operation : Int → Int) :
    Unconditional (unaryArith operation stack) :=
  unconditional_popNum.bind fun _ => unconditional_pushArith _

theorem unconditional_binaryArith (operation : Int → Int → Option Int) :
    Unconditional (binaryArith operation stack) :=
  unconditional_popNums.bind fun _ => unconditional_pushArith _

theorem unconditional_binaryTest (test : Int → Int → Bool) :
    Unconditional (binaryTest test stack) :=
  unconditional_popNums.bind fun _ => .ok _

theorem unconditional_execStack (op : UInt8) :
    Unconditional (execStack crypto env op stack) := by
  unfold execStack
  split
  all_goals with_reducible first
    | exact .ok _
    | exact unconditional_checkMultisig
    | exact unconditional_checkLockTime
    | exact unconditional_checkSequence
    | exact unconditional_hashTop _
    | exact unconditional_unaryArith _
    | exact unconditional_binaryArith _
    | exact unconditional_binaryTest _
    | refine unconditional_pop.bind fun _ => ?_
    | refine unconditional_popNum.bind fun _ => ?_
    | refine unconditional_popNums.bind fun _ => ?_
    | refine unconditional_popIndex.bind fun _ => ?_
    | split
  all_goals first
    | exact .ok _
    | exact .error (by simp)
    | exact (Unconditional.reject (by decide)).bind fun _ => .ok _
    | exact unconditional_popNum.bind fun _ => unconditional_popNum.bind fun _ => .ok _
    | exact (unconditional_checkSig _ _).bind fun _ => .ok _
    | (split <;> first | exact .ok _ | exact .error (by decide))

theorem unconditional_execItem (item : Item) (state : RunState) :
    Unconditional (execItem crypto env item state) := by
  cases item with
  | pushData data =>
      unfold execItem
      dsimp only
      split
      · split <;> nofun
      · nofun
  | opcode op =>
      unfold execItem execOpcode
      dsimp only
      split
      all_goals first
        | exact .ok _
        | exact .error (by decide)
        | (split
           · first
              | exact unconditional_pop.bind fun _ => .ok _
              | exact (unconditional_execStack op).bind fun _ => .ok _
           · exact .ok _)

theorem unconditional_runItems (steps : Nat) (items : List Item) (state : RunState) :
    Unconditional (runItems crypto env steps items state) := by
  induction items generalizing steps state with
  | nil => exact .ok _
  | cons item items ih =>
      rw [runItems]
      split
      · intro unbalanced
        cases unbalanced
      · exact (unconditional_execItem item state).bind fun next => ih _ next

theorem unconditional_validate (script : Script) : Unconditional script.validate := by
  suffices within : ∀ fuel bytes, Unconditional (validateWithin fuel bytes) from
    within _ _
  intro fuel
  induction fuel with
  | zero => exact fun _ => .ok ()
  | succ fuel ih =>
      intro bytes
      cases bytes with
      | nil => exact .ok ()
      | cons byte rest =>
          have skipped : ∀ (length : Nat) (rest : Bytes), Unconditional
              (if rest.length < length then .error .truncatedPush
                else validateWithin fuel (rest.drop length)) := by
            intro length rest
            split
            · nofun
            · exact ih _
          unfold validateWithin
          dsimp only
          split
          · exact ih _
          · split
            · exact skipped _ _
            · split
              · split
                · nofun
                · exact skipped _ _
              · split
                · split
                  · nofun
                  · exact skipped _ _
                · split
                  · split
                    · nofun
                    · exact skipped _ _
                  · exact ih _

end Errors

section Runs

variable {crypto : Crypto} {env : ScriptEnv} {script : Script} {start : Stacks}

def begin (start : Stacks) : RunState :=
  { toStacks := start, executing := true, ifStack := [] }

theorem run_eq_ok {final : Stacks} :
    run crypto env script start = .ok final ↔
      script.validate = .ok () ∧ leftOpen script.items = 0 ∧ ∃ state,
        runItems crypto env 0 script.items (begin start) = .ok state ∧
          final = state.toStacks := by
  rw [run]
  simp only [bind_eq_ok, rejectIf_eq_ok, pure_eq_ok, Bool.not_eq_false', List.isEmpty_iff]
  constructor
  · rintro ⟨_, valid, state, ran, _, empty, rfl⟩
    have held := runItems_held ran
    rw [empty] at held
    exact ⟨valid, held.symm, state, ran, rfl⟩
  · rintro ⟨valid, closed, state, ran, rfl⟩
    refine ⟨(), valid, state, ran, (), ?_, rfl⟩
    rw [← List.length_eq_zero_iff, runItems_held ran]
    exact closed

theorem run_eq_unbalanced :
    run crypto env script start = .error .unbalancedConditional ↔
      script.validate = .ok () ∧ 0 < leftOpen script.items ∧ ∃ state,
        runItems crypto env 0 script.items (begin start) = .ok state := by
  have shape : run crypto env script start = (do
      script.validate
      let state ← runItems crypto env 0 script.items (begin start)
      rejectIf (!state.ifStack.isEmpty) ScriptError.unbalancedConditional
      pure state.toStacks) := rfl
  rw [shape]
  cases valid : script.validate with
  | error error =>
      have other := unconditional_validate script
      rw [valid] at other
      rw [error_bind]
      exact iff_of_false (fun same => other (by cases same; rfl)) nofun
  | ok value =>
      rw [ok_bind]
      cases ran : runItems crypto env 0 script.items (begin start) with
      | error error =>
          have other : Unconditional (runItems crypto env 0 script.items (begin start)) :=
            unconditional_runItems 0 script.items (begin start)
          rw [ran] at other
          rw [error_bind]
          exact iff_of_false (fun same => other (by cases same; rfl)) nofun
      | ok state =>
          have held : state.ifStack.length = leftOpen script.items := runItems_held ran
          rw [ok_bind, ← held]
          cases state.ifStack with
          | nil => exact iff_of_false nofun (by simp)
          | cons open_ others => exact iff_of_true rfl ⟨rfl, by simp, state, rfl⟩

end Runs

/-- A script without a stray `OP_ELSE` or `OP_ENDIF` succeeds only if it is balanced.  With a
stray one it succeeds or fails for another reason, unless a conditional is left open in the end;
then it does not succeed, and which error is reported depends on its other items. -/
theorem balanced_required_of_not_stray (crypto : Crypto) (env : ScriptEnv) (script : Script)
    (start : Stacks) :
    let required := (∀ final, run crypto env script start = .ok final → Balanced script.items) ∧
      (Stray script.items → run crypto env script start = .error .unbalancedConditional)
    (¬ Stray script.items → required) ∧
      (leftOpen script.items = 0 → required → ¬ Stray script.items) ∧
      (0 < leftOpen script.items → ∀ final, run crypto env script start ≠ .ok final) := by
  refine ⟨fun clean => ⟨fun final ran => ?_, fun stray => absurd stray clean⟩, ?_, ?_⟩
  · obtain ⟨-, closed, -⟩ := run_eq_ok.mp ran
    have counted := leftOpen_add_closed clean
    exact ⟨clean, by omega⟩
  · intro closed required stray
    obtain ⟨-, left, -⟩ := run_eq_unbalanced.mp (required.2 stray)
    omega
  · intro left final ran
    obtain ⟨-, closed, -⟩ := run_eq_ok.mp ran
    omega

/-- `OP_1 OP_ENDIF` and `OP_1 OP_ELSE OP_ELSE` are accepted. -/
theorem stray_opcodes_accepted :
    (Stray (Script.items ⟨[0x51, 0x68]⟩) ∧
        run Keyed.crypto Keyed.env ⟨[0x51, 0x68]⟩ ⟨[], []⟩ = .ok ⟨[[1]], []⟩) ∧
      Stray (Script.items ⟨[0x51, 0x67, 0x67]⟩) ∧
        run Keyed.crypto Keyed.env ⟨[0x51, 0x67, 0x67]⟩ ⟨[], []⟩ = .ok ⟨[[1]], []⟩ :=
  ⟨⟨⟨[.opcode 0x51], .opcode 0x68, [], rfl, rfl, by decide⟩, rfl⟩,
    ⟨[.opcode 0x51], .opcode 0x67, [.opcode 0x67], rfl, rfl, by decide⟩, rfl⟩

end Engine

end Vtorrent
