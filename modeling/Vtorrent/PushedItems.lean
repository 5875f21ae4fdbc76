import Vtorrent.AtomicSwap
import Vtorrent.ScriptReading
import Vtorrent.StackDepth

/-!
# Values pushed by a script

A script written by `push_data` and `push_int` should be read as one item for each call,
which puts the pushed value on the stack.  `push_int` writes numbers above sixteen without
a length, so the reader takes the number itself for an opcode or for the length of a push.
-/

namespace Vtorrent

open Checked

namespace Script

/-- `Script::push_int`. -/
def pushInt (script : Script) (n : UInt8) : Script :=
  if n = 0 then ⟨script.bytes ++ [0x00]⟩
  else if n ≤ 16 then ⟨script.bytes ++ [0x50 + n]⟩
  else if n < 0x80 then ⟨script.bytes ++ [n]⟩
  else ⟨script.bytes ++ [n, 0x00]⟩

/-- A call that appends a value to a script. -/
inductive Push where
  | data (content : Bytes)
  | int (number : UInt8)
  deriving DecidableEq, Repr

def Push.apply (script : Script) : Push → Except ScriptError Script
  | .data content => script.pushData content
  | .int number => .ok (script.pushInt number)

def pushAll (script : Script) (calls : List Push) : Except ScriptError Script :=
  calls.foldlM Push.apply script

def Push.encode : Push → Bytes
  | .data content =>
      if content.length ≤ 75 then UInt8.ofNat content.length :: content
      else if content.length ≤ 255 then 0x4c :: UInt8.ofNat content.length :: content
      else 0x4d :: (leBytes 2 content.length ++ content)
  | .int n =>
      if n = 0 then [0x00]
      else if n ≤ 16 then [0x50 + n]
      else if n < 0x80 then [n]
      else [n, 0x00]

def Push.Allowed : Push → Prop
  | .data content => content.length ≤ maxPushSize
  | .int _ => True

section Writing

variable {script after : Script}

theorem Push.apply_eq_ok {call : Push} :
    call.apply script = .ok after ↔ call.Allowed ∧ after = ⟨script.bytes ++ call.encode⟩ := by
  cases call with
  | data content =>
      simp only [Push.apply, pushData, Push.Allowed, Push.encode, gt_iff_lt]
      by_cases large : maxPushSize < content.length
      · rw [if_pos large]
        exact iff_of_false nofun (by omega)
      · rw [if_neg large]
        simp only [not_lt.mp large, true_and]
        split
        · simp [eq_comm]
        · split <;> simp [eq_comm]
  | int number =>
      simp only [Push.apply, pushInt, Push.Allowed, Push.encode, true_and, Except.ok.injEq]
      split
      · simp [eq_comm]
      · split
        · simp [eq_comm]
        · split <;> simp [eq_comm]

theorem pushAll_eq_ok {calls : List Push} :
    script.pushAll calls = .ok after ↔
      (∀ call ∈ calls, call.Allowed) ∧
        after = ⟨script.bytes ++ calls.flatMap Push.encode⟩ := by
  induction calls generalizing script with
  | nil =>
      change Except.ok script = .ok after ↔ _
      simp [eq_comm]
  | cons call calls ih =>
      change (call.apply script >>= fun next => next.pushAll calls) = .ok after ↔ _
      simp only [bind_eq_ok, Push.apply_eq_ok, ih, List.forall_mem_cons, List.flatMap_cons]
      constructor
      · rintro ⟨_, ⟨allowed, rfl⟩, others, rfl⟩
        exact ⟨⟨allowed, others⟩, by simp⟩
      · rintro ⟨⟨allowed, others⟩, rfl⟩
        exact ⟨_, ⟨allowed, rfl⟩, others, by simp⟩

end Writing

section Spelling

variable {data used : Bytes}

/-- No spelling of a push is shorter than the one that `push_data` writes. -/
theorem Spells.length_le (spelled : Spells used (.pushData data)) :
    (Push.data data).encode.length ≤ used.length := by
  simp only [Push.encode]
  cases spelled with
  | empty => simp
  | short nonzero small length =>
      rw [if_pos (by omega)]
      simp
  | @byOne byte data length =>
      have bounded := byte.toNat_lt
      split
      · simp
      · rw [if_pos (by omega)]
        simp
  | byTwo width length =>
      split
      · simp
      · split <;> simp <;> omega
  | byFour width length =>
      split
      · simp
      · split <;> simp <;> omega

theorem length_lt_encode (data : Bytes) : data.length < (Push.data data).encode.length := by
  simp only [Push.encode]
  split
  · simp
  · split <;> simp

/-- A call of `push_data` spells the push of its data. -/
theorem spells_data (allowed : data.length ≤ maxPushSize) :
    Spells (Push.data data).encode (.pushData data) := by
  unfold maxPushSize at allowed
  simp only [Push.encode]
  split
  · rename_i small
    cases data with
    | nil => exact .empty
    | cons first others =>
        exact .short (length_ne_zero small) (by rw [toNat_length small]; exact small)
          (toNat_length small)
  · split
    · refine .byOne ?_
      rw [UInt8.toNat_ofNat']
      omega
    · refine .byTwo (leBytes_length 2 _) ?_
      rw [leValue_leBytes]
      omega

end Spelling

end Script

namespace Engine

open Script

/-- The item puts a value on the stack, wherever it is executed with room on the stack. -/
def Pushes (item : Item) (value : Bytes) : Prop :=
  ∀ crypto env state, state.executing = true → state.stack.length < maxStackDepth →
    execItem crypto env item state = .ok { state with stack := value :: state.stack }

/-- The item puts the value of a call on the stack. -/
def Carries : Push → Item → Prop
  | .data content, item => Pushes item content
  | .int number, item => ∃ value, Pushes item value ∧
      decodeScriptNum value maxArithNumLen = .ok (number.toNat : Int)

section Values

variable {data value : Bytes} {op : UInt8}

theorem pushes_pushData_iff : Pushes (.pushData data) value ↔ value = data := by
  constructor
  · intro pushes
    have pushed := pushes Keyed.crypto Keyed.env Keyed.running rfl (by decide)
    have held := congrArg Except.toOption pushed
    simpa [execItem, Keyed.running, maxStackDepth, Except.toOption, eq_comm] using held
  · rintro rfl crypto env state executing room
    rw [execItem, if_pos executing, if_neg (by omega)]

theorem execStack_small {crypto : Crypto} {env : ScriptEnv}
    (small : 0x51 ≤ op.toNat ∧ op.toNat ≤ 0x60) (stack : List Bytes) :
    execStack crypto env op stack = .ok ([op - 0x50] :: stack) := by
  unfold execStack
  split
  all_goals first | omega | exact if_pos small

theorem pushes_small (small : 0x51 ≤ op.toNat ∧ op.toNat ≤ 0x60) :
    Pushes (.opcode op) [op - 0x50] := by
  intro crypto env state executing room
  have onStack : OnStack (.opcode op) := by
    simp only [OnStack, List.mem_cons, List.not_mem_nil, or_false, ← UInt8.toNat_inj]
    simp
    omega
  obtain ⟨⟨stack, altStack⟩, _, ifStack⟩ := state
  obtain rfl : _ = true := executing
  rw [execItem_onStack onStack, stackItem, execStack_small small, ok_bind]

/-- An opcode that always puts the same value on the stack is one of the small numbers. -/
theorem value_of_pushes_opcode (pushes : Pushes (.opcode op) value) :
    op = 0x4f ∧ value = [0x81] ∨
      (0x51 ≤ op.toNat ∧ op.toNat ≤ 0x60) ∧ value = [op - 0x50] := by
  have onEmpty : execOpcode Keyed.crypto Keyed.env op ⟨⟨[], []⟩, true, []⟩ =
      .ok ⟨⟨[value], []⟩, true, []⟩ :=
    pushes Keyed.crypto Keyed.env ⟨⟨[], []⟩, true, []⟩ rfl (by decide)
  have onOne : execOpcode Keyed.crypto Keyed.env op ⟨⟨[[]], []⟩, true, []⟩ =
      .ok ⟨⟨[value, []], []⟩, true, []⟩ :=
    pushes Keyed.crypto Keyed.env ⟨⟨[[]], []⟩, true, []⟩ rfl (by decide)
  have grows := (execOpcode_gain rfl onEmpty).1
  have byNumber : ∀ number : UInt8, op.toNat = number.toNat → op = number :=
    fun number same => UInt8.toNat_inj.mp same
  unfold gain at grows
  split at grows
  case h_1 is =>
    obtain rfl := byNumber 0x4f is
    cases onEmpty
    exact .inl ⟨rfl, rfl⟩
  case h_3 is =>
    obtain rfl := byNumber 0x74 is
    cases onEmpty
    cases onOne
  case h_12 =>
    split at grows
    · rename_i small
      have pushed := pushes_small small Keyed.crypto Keyed.env ⟨⟨[], []⟩, true, []⟩ rfl
        (by decide)
      cases pushed.symm.trans onEmpty
      exact .inr ⟨small, rfl⟩
    · simp at grows
  case h_8 => simp at grows
  all_goals
    rename_i is
    simp [execOpcode, execStack, is, pop] at onEmpty

theorem toNat_sub_small (small : 0x51 ≤ op.toNat ∧ op.toNat ≤ 0x60) :
    (op - 0x50).toNat = op.toNat - 0x50 := by
  rw [UInt8.toNat_sub_of_le]
  · rfl
  · exact UInt8.le_iff_toNat_le.mpr (by simp; omega)

theorem decodeScriptNum_singleton {byte : UInt8} (small : byte.toNat < 128) :
    decodeScriptNum [byte] maxArithNumLen = .ok (byte.toNat : Int) := by
  have magnitude : leValue [byte &&& 0x7f] = byte.toNat := by
    simp only [leValue, toNat_and_127]
    omega
  have positive : ¬ (byte &&& 0x80 != 0) = true := by
    rw [and_128_ne_zero]
    simpa using small
  unfold decodeScriptNum
  simp only [List.getLast?_singleton, List.dropLast_singleton, List.nil_append, magnitude,
    List.length_singleton]
  rw [if_neg (by decide), if_neg (by omega), if_neg positive]

theorem decodeScriptNum_le_of_pushes_opcode (pushes : Pushes (.opcode op) value) {number : Int}
    (decoded : decodeScriptNum value maxArithNumLen = .ok number) : number ≤ 16 := by
  rcases value_of_pushes_opcode pushes with ⟨-, rfl⟩ | ⟨small, rfl⟩
  · obtain rfl : -1 = number := Except.ok.inj decoded
    decide
  · have difference := toNat_sub_small small
    rw [decodeScriptNum_singleton (by omega), Except.ok.injEq] at decoded
    omega

/-- A number other than zero takes at least one byte on the stack. -/
theorem ne_nil_of_decodeScriptNum {number : UInt8} (nonzero : number ≠ 0)
    (decoded : decodeScriptNum value maxArithNumLen = .ok (number.toNat : Int)) :
    value ≠ [] := by
  rintro rfl
  have zero : (0 : Int) = number.toNat := Except.ok.inj decoded
  exact nonzero (UInt8.toNat_inj.mp (by simpa using zero.symm))

end Values

section Carried

variable {calls : List Push} {items : List Item} {used rest others ahead bytes : Bytes}

/-- The item that a call is read as, for numbers up to sixteen. -/
def itemOf : Push → Item
  | .data content => .pushData content
  | .int number => if number = 0 then .pushData [] else .opcode (0x50 + number)

def SmallInt : Push → Prop
  | .data _ => True
  | .int number => number ≤ 16

theorem toNat_small {number : UInt8} (nonzero : number ≠ 0) (small : number ≤ 16) :
    (0x50 + number).toNat = 0x50 + number.toNat ∧ 1 ≤ number.toNat ∧ number.toNat ≤ 16 := by
  have bounded := UInt8.le_iff_toNat_le.mp small
  have positive : number.toNat ≠ 0 := fun zero => nonzero (UInt8.toNat_inj.mp (by simpa using zero))
  simp at bounded
  refine ⟨?_, by omega, bounded⟩
  rw [UInt8.toNat_add]
  simp
  omega

theorem add_sub_small (number : UInt8) : 0x50 + number - 0x50 = number := by
  rw [UInt8.add_comm, UInt8.add_sub_cancel]

theorem spells_itemOf {call : Push} (allowed : call.Allowed) (small : SmallInt call) :
    Spells call.encode (itemOf call) := by
  cases call with
  | data content => exact spells_data allowed
  | int number =>
      simp only [Push.encode, itemOf]
      by_cases zero : number = 0
      · rw [if_pos zero, if_pos zero]
        exact .empty
      · have value := toNat_small zero small
        rw [if_neg zero, if_neg zero, if_pos (show number ≤ 16 from small)]
        exact .opcode (by omega)

theorem carries_itemOf {call : Push} (small : SmallInt call) : Carries call (itemOf call) := by
  cases call with
  | data content => exact pushes_pushData_iff.mpr rfl
  | int number =>
      simp only [itemOf]
      by_cases zero : number = 0
      · rw [if_pos zero, zero]
        exact ⟨[], pushes_pushData_iff.mpr rfl, rfl⟩
      · rw [if_neg zero]
        obtain ⟨value, positive, bounded⟩ := toNat_small zero small
        have pushes : Pushes (.opcode (0x50 + number)) [0x50 + number - 0x50] :=
          pushes_small (by omega)
        rw [add_sub_small] at pushes
        exact ⟨[number], pushes, decodeScriptNum_singleton (by omega)⟩

/-- A number above sixteen is carried by an item that takes more bytes than were written. -/
theorem large_overruns {number : UInt8} {item : Item} (large : 16 < number)
    (carried : Carries (.int number) item) (spelled : Spells used item)
    (parts : (Push.int number).encode ++ others = used ++ rest) :
    (Push.int number).encode.length < used.length := by
  obtain ⟨value, pushes, decoded⟩ := carried
  have bounded := UInt8.lt_iff_toNat_lt.mp large
  simp at bounded
  cases item with
  | opcode op =>
      have small := decodeScriptNum_le_of_pushes_opcode pushes decoded
      omega
  | pushData data =>
      obtain rfl := pushes_pushData_iff.mp pushes
      have nonzero : number ≠ 0 := by
        rintro rfl
        simp at bounded
      have nonempty := List.length_pos_iff.mpr (ne_nil_of_decodeScriptNum nonzero decoded)
      have written := spelled.length_le
      have pushed := length_lt_encode value
      simp only [Push.encode] at parts ⊢
      rw [if_neg nonzero, if_neg (UInt8.not_le.mpr large)] at parts ⊢
      split at parts
      · rename_i low
        rw [if_pos low]
        simp only [List.length_singleton]
        omega
      · rename_i high
        have byte := UInt8.le_iff_toNat_le.mp (UInt8.not_lt.mp high)
        simp at byte
        have single : Spells [number] (.opcode number) := .opcode (by omega)
        have opcodeRead : nextItem (used ++ rest) = some (.opcode number, 0x00 :: others) := by
          rw [← parts]
          exact nextItem_of_spells single
        rw [nextItem_of_spells spelled] at opcodeRead
        cases opcodeRead

/-- A reading that is late stays late: an item that carries the next call ends after the
bytes of that call. -/
theorem stays_late {call : Push} {item : Item} (carried : Carries call item)
    (spelled : Spells used item) (late : ahead ≠ [])
    (parts : call.encode ++ others = ahead ++ (used ++ rest)) :
    call.encode.length < ahead.length + used.length := by
  have started := List.length_pos_iff.mpr late
  have read := List.length_pos_iff.mpr spelled.ne_nil
  cases call with
  | data content =>
      cases item with
      | pushData data =>
          obtain rfl := pushes_pushData_iff.mp carried
          have written := spelled.length_le
          omega
      | opcode op =>
          obtain ⟨byte, rfl, other⟩ : ∃ byte, content = [byte] ∧ byte ≠ op := by
            rcases value_of_pushes_opcode carried with ⟨rfl, rfl⟩ | ⟨small, rfl⟩
            · exact ⟨0x81, rfl, by decide⟩
            · refine ⟨op - 0x50, rfl, fun same => ?_⟩
              have value := congrArg UInt8.toNat same
              rw [toNat_sub_small small] at value
              omega
          cases spelled with
          | opcode large =>
              by_contra short
              have single : ahead.length = 1 := by
                simp [Push.encode] at short
                omega
              obtain ⟨first, rfl⟩ := List.length_eq_one_iff.mp single
              simp [Push.encode] at parts
              exact other parts.2.1
  | int number =>
      obtain ⟨value, pushes, decoded⟩ := carried
      by_cases low : number < 0x80
      · have one : (Push.int number).encode.length = 1 := by
          simp only [Push.encode]
          split
          · rfl
          · split
            · rfl
            · rfl
        omega
      · have high := UInt8.le_iff_toNat_le.mp (UInt8.not_lt.mp low)
        simp at high
        cases item with
        | opcode op =>
            have small := decodeScriptNum_le_of_pushes_opcode pushes decoded
            omega
        | pushData data =>
            obtain rfl := pushes_pushData_iff.mp pushes
            have nonempty := List.length_pos_iff.mpr
              (ne_nil_of_decodeScriptNum (by rintro rfl; simp at high) decoded)
            have written := spelled.length_le
            have pushed := length_lt_encode value
            have two : (Push.int number).encode.length ≤ 2 := by
              simp only [Push.encode]
              split
              · simp
              · split <;> simp
            omega

theorem not_carried_late (late : ahead ≠ [])
    (parts : calls.flatMap Push.encode = ahead ++ bytes) (reads : Reads bytes items) :
    ¬ List.Forall₂ Carries calls items := by
  intro carried
  induction carried generalizing ahead bytes with
  | nil =>
      rw [List.flatMap_nil] at parts
      exact late (List.append_eq_nil_iff.mp parts.symm).1
  | @cons call item calls items first others ih =>
      obtain ⟨used, rest, rfl, spelled, following⟩ := reads.uncons
      rw [List.flatMap_cons] at parts
      have longer := stays_late first spelled late parts
      rw [← List.append_assoc, List.append_eq_append_iff] at parts
      rcases parts with ⟨further, split, tails⟩ | ⟨missing, split, tails⟩
      · refine ih ?_ tails following
        rintro rfl
        have lengths := congrArg List.length split
        simp only [List.length_append, List.append_nil] at lengths
        omega
      · have lengths := congrArg List.length split
        simp only [List.length_append] at lengths
        omega

/-- Numbers up to sixteen and data are read as they were written. -/
theorem reads_small (allowed : ∀ call ∈ calls, call.Allowed)
    (small : ∀ call ∈ calls, SmallInt call) :
    Reads (calls.flatMap Push.encode) (calls.map itemOf) ∧
      List.Forall₂ Carries calls (calls.map itemOf) := by
  induction calls with
  | nil => exact ⟨.nil, .nil⟩
  | cons call calls ih =>
      rw [List.forall_mem_cons] at allowed small
      obtain ⟨reads, carried⟩ := ih allowed.2 small.2
      rw [List.flatMap_cons, List.map_cons]
      exact ⟨.cons (spells_itemOf allowed.1 small.1) reads,
        .cons (carries_itemOf small.1) carried⟩

theorem small_of_carried (allowed : ∀ call ∈ calls, call.Allowed)
    (reads : Reads (calls.flatMap Push.encode) items)
    (carried : List.Forall₂ Carries calls items) : ∀ call ∈ calls, SmallInt call := by
  induction carried with
  | nil => simp
  | @cons call item calls items first others ih =>
      rw [List.forall_mem_cons] at allowed ⊢
      obtain ⟨used, rest, parts, spelled, following⟩ := reads.uncons
      rw [List.flatMap_cons] at parts
      have small : SmallInt call := by
        cases call with
        | data content => trivial
        | int number =>
            by_contra large
            have longer := large_overruns (UInt8.not_le.mp large) first spelled parts
            rw [List.append_eq_append_iff] at parts
            rcases parts with ⟨further, split, tails⟩ | ⟨missing, split, tails⟩
            · refine not_carried_late ?_ tails following others
              rintro rfl
              rw [split, List.append_nil] at longer
              exact longer.false
            · have lengths := congrArg List.length split
              simp only [List.length_append] at lengths
              omega
      have aligned : nextItem (call.encode ++ calls.flatMap Push.encode) =
          some (itemOf call, calls.flatMap Push.encode) :=
        nextItem_of_spells (spells_itemOf allowed.1 small)
      rw [parts, nextItem_of_spells spelled] at aligned
      cases aligned
      exact ⟨small, ih allowed.2 following⟩

end Carried

/-- A script written by calls that all succeed is valid and is read as one item for each
call, in order, that puts the data or the number on the stack, exactly when no number above
sixteen is pushed. -/
theorem pushed_items_iff (calls : List Push) (script : Script)
    (written : Script.empty.pushAll calls = .ok script) :
    (script.validate = .ok () ∧ List.Forall₂ Carries calls script.items) ↔
      ∀ number, Push.int number ∈ calls → number ≤ 16 := by
  obtain ⟨allowed, rfl⟩ := pushAll_eq_ok.mp written
  rw [Script.empty, List.nil_append]
  have numbers : (∀ number, Push.int number ∈ calls → number ≤ 16) ↔
      ∀ call ∈ calls, SmallInt call := by
    constructor
    · intro small call member
      cases call with
      | data content => trivial
      | int number => exact small number member
    · intro small number member
      exact small _ member
  rw [numbers]
  constructor
  · rintro ⟨valid, carried⟩
    exact small_of_carried allowed (reads_iff.mpr ⟨valid, rfl⟩) carried
  · intro small
    obtain ⟨reads, carried⟩ := reads_small allowed small
    have read : _ ∧ Script.items ⟨calls.flatMap Push.encode⟩ = _ := reads_iff.mp reads
    exact ⟨read.1, read.2 ▸ carried⟩

/-- A hash behind two numbers. -/
theorem pushed_items_small :
    Script.validate ⟨[0x52, 0x02, 0xaa, 0xbb, 0x60]⟩ = .ok () ∧
      List.Forall₂ Carries [.int 2, .data [0xaa, 0xbb], .int 16]
        (Script.items ⟨[0x52, 0x02, 0xaa, 0xbb, 0x60]⟩) :=
  (pushed_items_iff [.int 2, .data [0xaa, 0xbb], .int 16] _ rfl).mpr (by
    intro number member
    simp at member
    rcases member with rfl | rfl <;> decide)

/-- The number seventeen is read as the length of a push that the script does not hold, and
the number 200 as an opcode that does not exist. -/
theorem large_numbers_misread :
    Script.empty.pushAll [.int 17] = .ok ⟨[0x11]⟩ ∧
      Script.validate ⟨[0x11]⟩ = .error .truncatedPush ∧
      Script.empty.pushAll [.int 200] = .ok ⟨[0xc8, 0x00]⟩ ∧
      Script.items ⟨[0xc8, 0x00]⟩ = [.opcode 0xc8, .pushData []] ∧
      run Keyed.crypto Keyed.env ⟨[0xc8, 0x00]⟩ ⟨[], []⟩ = .error (.invalidOpcode 0xc8) :=
  ⟨rfl, rfl, rfl, rfl, rfl⟩

end Engine

end Vtorrent
