import Vtorrent.PushedItems

/-!
# Multisignature output scripts

`build_p2ms` narrows the number of keys to eight bits before it checks it.  For fewer than
256 keys the script it builds states the requested policy; with more keys the counts that
it checks and writes are not those of the list.
-/

namespace Vtorrent

open Checked OrderedMatching

namespace Script

def pushKey (script : Script) (key : Bytes) : Except ScriptError Script := do
  rejectIf (key.length > 520) (ScriptError.pushTooLarge key.length)
  script.pushSerialized key

end Script

open Script in
/-- `build_p2ms`. -/
def buildP2ms (m : UInt8) (keys : List Bytes) : Except ScriptError Script := do
  let n := UInt8.ofNat keys.length
  rejectIf (m > n) (ScriptError.multisigKeyCount m.toNat n.toNat)
  rejectIf (n > 15) (ScriptError.multisigKeyCount m.toNat n.toNat)
  let script := Script.empty.pushInt m
  let script ← keys.foldlM pushKey script
  let script := script.pushInt n
  pure (script.pushOpcode 0xae)

namespace Engine

open Script

section Building

variable {m : UInt8} {keys : List Bytes} {script after : Script}

theorem pushKey_eq_ok {key : Bytes} :
    script.pushKey key = .ok after ↔
      key.length ≤ maxPushSize ∧ after = ⟨script.bytes ++ (Push.data key).encode⟩ := by
  have applied : script.pushData key = .ok after ↔ _ := @Push.apply_eq_ok script after (.data key)
  simp only [pushKey, pushSerialized, bind_eq_ok, rejectIf_eq_ok, mapError_eq_ok, applied,
    Push.Allowed]
  constructor
  · rintro ⟨_, -, allowed, rfl⟩
    exact ⟨allowed, rfl⟩
  · rintro ⟨allowed, rfl⟩
    exact ⟨(), by simpa [maxPushSize] using allowed, allowed, rfl⟩

theorem pushKeys_eq_ok :
    keys.foldlM pushKey script = .ok after ↔
      (∀ key ∈ keys, key.length ≤ maxPushSize) ∧
        after = ⟨script.bytes ++ (keys.map Push.data).flatMap Push.encode⟩ := by
  induction keys generalizing script with
  | nil =>
      change Except.ok script = .ok after ↔ _
      simp [eq_comm]
  | cons key keys ih =>
      rw [List.foldlM_cons]
      simp only [bind_eq_ok, pushKey_eq_ok, ih, List.forall_mem_cons, List.map_cons,
        List.flatMap_cons]
      constructor
      · rintro ⟨_, ⟨allowed, rfl⟩, others, rfl⟩
        exact ⟨⟨allowed, others⟩, by simp⟩
      · rintro ⟨⟨allowed, others⟩, rfl⟩
        exact ⟨_, ⟨allowed, rfl⟩, others, by simp⟩

theorem pushInt_eq (n : UInt8) : script.pushInt n = ⟨script.bytes ++ (Push.int n).encode⟩ := by
  have applied := (@Push.apply_eq_ok script (script.pushInt n) (.int n)).mp rfl
  exact applied.2

def multisigCalls (m : UInt8) (keys : List Bytes) : List Push :=
  .int m :: (keys.map Push.data ++ [.int (UInt8.ofNat keys.length)])

theorem buildP2ms_eq_ok :
    buildP2ms m keys = .ok script ↔
      m.toNat ≤ keys.length % 256 ∧ keys.length % 256 ≤ 15 ∧
        (∀ key ∈ keys, key.length ≤ maxPushSize) ∧
        script = ⟨(multisigCalls m keys).flatMap Push.encode ++ [0xae]⟩ := by
  have count : (UInt8.ofNat keys.length).toNat = keys.length % 256 := UInt8.toNat_ofNat'
  have enough : ¬ m > UInt8.ofNat keys.length ↔ m.toNat ≤ keys.length % 256 := by
    rw [gt_iff_lt, UInt8.not_lt, UInt8.le_iff_toNat_le, count]
  have few : ¬ UInt8.ofNat keys.length > 15 ↔ keys.length % 256 ≤ 15 := by
    rw [gt_iff_lt, UInt8.not_lt, UInt8.le_iff_toNat_le, count]
    rfl
  simp only [buildP2ms, bind_eq_ok, rejectIf_eq_ok, decide_eq_false_iff_not, enough, few,
    pushKeys_eq_ok, pushInt_eq, pushOpcode, pure_eq_ok, multisigCalls, List.flatMap_cons,
    List.flatMap_append, List.flatMap_nil, Script.empty]
  constructor
  · rintro ⟨_, first, _, second, _, ⟨allowed, rfl⟩, rfl⟩
    exact ⟨first, second, allowed, by simp⟩
  · rintro ⟨first, second, allowed, rfl⟩
    exact ⟨(), first, (), second, _, ⟨allowed, rfl⟩, by simp⟩

end Building

section Spending

variable {crypto : Crypto} {env : ScriptEnv} {m : UInt8} {keys stack after : List Bytes}

theorem stackItem_itemOf_int {number : UInt8} (small : number ≤ 16)
    (ran : stackItem crypto env (itemOf (.int number)) stack = .ok after) :
    ∃ value, after = value :: stack ∧
      decodeScriptNum value maxArithNumLen = .ok (number.toNat : Int) := by
  simp only [itemOf] at ran
  split at ran
  · rename_i zero
    subst zero
    exact ⟨[], (stackItem_push.mp ran).2, rfl⟩
  · rename_i nonzero
    obtain ⟨value, positive, bounded⟩ := toNat_small nonzero small
    have pushed : execStack crypto env (0x50 + number) stack =
        .ok ([0x50 + number - 0x50] :: stack) := execStack_small (by omega) stack
    rw [add_sub_small] at pushed
    cases pushed.symm.trans ran
    exact ⟨[number], rfl, decodeScriptNum_singleton (by omega)⟩

theorem stackItems_pushed {data : List Bytes}
    (ran : stackItems crypto env (data.map Item.pushData) stack = .ok after) :
    after = data.reverse ++ stack := by
  induction data generalizing stack with
  | nil =>
      cases ran
      rfl
  | cons first data ih =>
      rw [List.map_cons, stackItems, bind_eq_ok] at ran
      obtain ⟨next, pushed, others⟩ := ran
      obtain ⟨-, rfl⟩ := stackItem_push.mp pushed
      rw [ih others]
      simp

def multisigItems (m : UInt8) (keys : List Bytes) : List Item :=
  itemOf (.int m) :: (keys.map Item.pushData ++
    [itemOf (.int (UInt8.ofNat keys.length)), .opcode 0xae])

def SignedBy (crypto : Crypto) (env : ScriptEnv) (count : Nat) (keys stack : List Bytes) :
    Prop :=
  ∃ sigs below, stack = sigs.reverse ++ below ∧ sigs.length = count ∧
    ∃ assignment : Fin sigs.length ↪o Fin keys.length,
      ∀ signature, VerifiesAt crypto env sigs keys signature (assignment signature)

theorem signedBy_of_stackItems (small : m ≤ 16) (few : keys.length ≤ 15) {rest : List Bytes}
    {top : Bytes} (truthy : isTrue top = true)
    (ran : stackItems crypto env (multisigItems m keys) stack = .ok (top :: rest)) :
    SignedBy crypto env m.toNat keys stack := by
  have count : (UInt8.ofNat keys.length).toNat = keys.length := by
    rw [UInt8.toNat_ofNat']
    omega
  have fewSmall : UInt8.ofNat keys.length ≤ 16 := by
    rw [UInt8.le_iff_toNat_le, count]
    exact few.trans (by decide)
  simp only [multisigItems, stackItems, bind_eq_ok, stackItems_append] at ran
  obtain ⟨_, required, _, keysOn, _, counted, _, checked, same⟩ := ran
  cases same
  obtain ⟨sigCount, rfl, sigsDecoded⟩ := stackItem_itemOf_int small required
  obtain rfl := stackItems_pushed keysOn
  obtain ⟨keyCount, rfl, keysDecoded⟩ := stackItem_itemOf_int fewSmall counted
  rw [count] at keysDecoded
  have ended : checkMultisig crypto env false
      (keyCount :: (keys.reverse ++ sigCount :: stack)) = .ok (top :: rest) := checked
  obtain ⟨keys', sigs, below, success, ⟨_, _, shape, keysDecoded', sigsDecoded'⟩, -, signed, -,
    pushed⟩ := checkMultisig_eq_ok.mp ended
  obtain ⟨rfl, keysShape⟩ := List.cons_eq_cons.mp shape
  have lengths : keys.reverse.length = keys'.length := by
    rw [keysDecoded] at keysDecoded'
    simpa using keysDecoded'
  obtain ⟨rfl, countShape⟩ := List.append_inj keysShape lengths
  obtain ⟨rfl, rfl⟩ := List.cons_eq_cons.mp countShape
  obtain ⟨rfl, -⟩ := List.cons_eq_cons.mp pushed
  rw [isTrue_boolToBytes] at truthy
  refine ⟨sigs.reverse, below, by simp, ?_, ?_⟩
  · rw [sigsDecoded] at sigsDecoded'
    simpa using sigsDecoded'.symm
  · have assigned : SignedInOrder crypto env sigs.reverse keys := by
      refine assignable_reverse.mp ?_
      rw [List.reverse_reverse]
      exact signed.mp truthy
    exact assignable_iff_exists_orderEmbedding.mp assigned

end Spending

section Policy

variable {m : UInt8} {keys : List Bytes} {script : Script}

/-- The script states a multisignature policy: it is read as the number of signatures, the
keys, their number and `OP_CHECKMULTISIG`, and it is satisfied only by that many signatures
by the keys. -/
structure StatesPolicy (m : UInt8) (keys : List Bytes) (script : Script) : Prop where
  few : keys.length ≤ 15
  valid : script.validate = .ok ()
  reads : ∃ required total, script.items =
      required :: (keys.map Item.pushData ++ [total, .opcode 0xae]) ∧
    Carries (.int m) required ∧ Carries (.int (UInt8.ofNat keys.length)) total
  needs : ∀ crypto env start final, run crypto env script start = .ok final →
    requireTop final.stack = .ok () → SignedBy crypto env m.toNat keys start.stack

theorem itemOf_int_onStack {number : UInt8} (small : number ≤ 16) :
    OnStack (itemOf (.int number)) := by
  simp only [itemOf]
  split
  · trivial
  · rename_i nonzero
    obtain ⟨value, positive, bounded⟩ := toNat_small nonzero small
    simp only [OnStack, List.mem_cons, List.not_mem_nil, or_false, ← UInt8.toNat_inj, value]
    simp
    omega

theorem multisigItems_onStack (small : m ≤ 16) (fewSmall : UInt8.ofNat keys.length ≤ 16) :
    ∀ item ∈ multisigItems m keys, OnStack item := by
  intro item member
  simp only [multisigItems, List.mem_cons, List.mem_append, List.mem_map, List.not_mem_nil,
    or_false] at member
  rcases member with rfl | ⟨key, -, rfl⟩ | rfl | rfl
  · exact itemOf_int_onStack small
  · trivial
  · exact itemOf_int_onStack fewSmall
  · decide

theorem reads_multisig (small : m ≤ 16) (few : keys.length ≤ 15)
    (allowed : ∀ key ∈ keys, key.length ≤ maxPushSize) :
    Reads ((multisigCalls m keys).flatMap Push.encode ++ [0xae]) (multisigItems m keys) := by
  have fewSmall : UInt8.ofNat keys.length ≤ 16 := by
    rw [UInt8.le_iff_toNat_le, UInt8.toNat_ofNat', Nat.mod_eq_of_lt (by omega)]
    exact few.trans (by decide)
  have calls : ∀ call ∈ multisigCalls m keys, call.Allowed ∧ SmallInt call := by
    intro call member
    simp only [multisigCalls, List.mem_cons, List.mem_append, List.mem_map, List.not_mem_nil,
      or_false] at member
    rcases member with rfl | ⟨key, held, rfl⟩ | rfl
    · exact ⟨trivial, small⟩
    · exact ⟨allowed key held, trivial⟩
    · exact ⟨trivial, fewSmall⟩
  have read := (reads_small (fun call member => (calls call member).1)
    fun call member => (calls call member).2).1
  have last : Reads ([0xae] ++ []) [.opcode 0xae] := .cons (.opcode (by decide)) .nil
  have whole := read.append last
  have items : (multisigCalls m keys).map itemOf ++ [.opcode 0xae] = multisigItems m keys := by
    simp [multisigCalls, multisigItems, itemOf]
  rwa [items, List.append_nil] at whole

theorem statesPolicy_of_built (built : buildP2ms m keys = .ok script)
    (small : keys.length < 256) : StatesPolicy m keys script := by
  obtain ⟨enough, few, allowed, rfl⟩ := buildP2ms_eq_ok.mp built
  rw [Nat.mod_eq_of_lt small] at enough few
  have smallRequired : m ≤ 16 := by
    rw [UInt8.le_iff_toNat_le]
    exact (enough.trans few).trans (by decide)
  have fewSmall : UInt8.ofNat keys.length ≤ 16 := by
    rw [UInt8.le_iff_toNat_le, UInt8.toNat_ofNat', Nat.mod_eq_of_lt small]
    exact few.trans (by decide)
  have read : Script.validate ⟨_⟩ = .ok () ∧ Script.items ⟨_⟩ = multisigItems m keys :=
    reads_iff.mp (reads_multisig smallRequired few allowed)
  refine ⟨few, read.1, ⟨_, _, read.2, carries_itemOf smallRequired, carries_itemOf fewSmall⟩, ?_⟩
  intro crypto env start final ran truthy
  obtain ⟨-, -, state, stepped, rfl⟩ := run_eq_ok.mp ran
  have length : 0 + (multisigItems m keys).length ≤ maxScriptExecSteps := by
    simp only [multisigItems, List.length_cons, List.length_append, List.length_map,
      List.length_nil, maxScriptExecSteps]
    omega
  rw [read.2, runItems_eq_execItems length, begin,
    execItems_onStack (multisigItems_onStack smallRequired fewSmall), bind_eq_ok] at stepped
  obtain ⟨after, computed, same⟩ := stepped
  cases same
  obtain ⟨top, rest, rfl, isTop⟩ := requireTop_eq_ok.mp truthy
  exact signedBy_of_stackItems smallRequired few isTop computed

/-- What `build_p2ms` builds states the requested policy exactly when there are fewer than
256 keys, or it builds nothing because the number of keys, narrowed to eight bits, is above
fifteen or less than the number of signatures, or because a key is too long. -/
theorem buildP2ms_policy_iff (m : UInt8) (keys : List Bytes) :
    (∀ script, buildP2ms m keys = .ok script → StatesPolicy m keys script) ↔
      (keys.length < 256 ∨ 15 < keys.length % 256 ∨ keys.length % 256 < m.toNat ∨
        ∃ key ∈ keys, maxPushSize < key.length) := by
  constructor
  · intro policy
    by_contra otherwise
    push Not at otherwise
    obtain ⟨many, few, enough, allowed⟩ := otherwise
    have stated := policy _ (buildP2ms_eq_ok.mpr ⟨enough, few, allowed, rfl⟩)
    have bounded := stated.few
    omega
  · intro condition script built
    obtain ⟨enough, few, allowed, -⟩ := buildP2ms_eq_ok.mp built
    rcases condition with small | large | missing | ⟨key, member, long⟩
    · exact statesPolicy_of_built built small
    · omega
    · omega
    · exact absurd (allowed key member) (by omega)

end Policy

/-- A list of 257 keys passes the checks as a single key. -/
theorem many_keys_built :
    (∃ script, buildP2ms 1 (List.replicate 257 [0x02]) = .ok script) ∧
      ∀ script, ¬ StatesPolicy 1 (List.replicate 257 [0x02]) script := by
  constructor
  · refine ⟨_, buildP2ms_eq_ok.mpr ⟨?_, ?_, ?_, rfl⟩⟩
    · rw [List.length_replicate]
      decide
    · rw [List.length_replicate]
      decide
    · intro key member
      rw [List.eq_of_mem_replicate member]
      decide
  · intro script stated
    have few := stated.few
    rw [List.length_replicate] at few
    omega

end Engine

end Vtorrent
