import Vtorrent.Deliveries
import Vtorrent.OrderedMatching
import Vtorrent.ScriptPrograms

/-!
# Multisignature checks

`OP_CHECKMULTISIG` takes a counted group of keys and a counted group of signatures off the
stack and tries each key once, in order.  It pushes true exactly when the signatures can be
matched with keys in order.
-/

namespace Vtorrent

open Checked OrderedMatching

namespace Engine

section Counting

variable {valid : Bytes → Bytes → Bool}

theorem countValidSigs_le (sigs keys : List Bytes) :
    countValidSigs valid sigs keys ≤ sigs.length := by
  induction sigs generalizing keys with
  | nil => simp [countValidSigs]
  | cons sig sigs ih =>
      rw [countValidSigs]
      split
      · omega
      · rename_i others _
        have counted := ih others
        simp only [List.length_cons]
        omega

/-- Keys are skipped until one verifies the first signature. -/
theorem assignable_dropWhile {sig : Bytes} {sigs keys : List Bytes} :
    Assignable (fun sig key => valid sig key = true) (sig :: sigs) keys ↔
      Assignable (fun sig key => valid sig key = true) (sig :: sigs)
        (keys.dropWhile fun key => !valid sig key) := by
  induction keys with
  | nil => rfl
  | cons key keys ih =>
      cases verified : valid sig key with
      | true => simp [verified]
      | false =>
          rw [assignable_skip (by simp [verified]), ih]
          simp [verified]

/-- The scan counts every signature exactly when all of them can be matched in order. -/
theorem countValidSigs_eq_length {sigs keys : List Bytes} :
    countValidSigs valid sigs keys = sigs.length ↔
      Assignable (fun sig key => valid sig key = true) sigs keys := by
  induction sigs generalizing keys with
  | nil => simp [countValidSigs, assignable_nil]
  | cons sig sigs ih =>
      rw [countValidSigs, assignable_dropWhile]
      cases found : keys.dropWhile fun key => !valid sig key with
      | nil => simp [not_assignable_of_nil]
      | cons key others =>
          have verified : valid sig key = true := by
            have head := List.head_dropWhile_not (fun key => !valid sig key)
              (by simp [found] : keys.dropWhile (fun key => !valid sig key) ≠ [])
            simpa [found] using head
          rw [@assignable_take _ _ (fun sig key => valid sig key = true) _ _ _ _ verified, ← ih,
            List.length_cons]
          simp only
          omega

end Counting

section Opcode

variable {crypto : Crypto} {env : ScriptEnv} {stack after : List Bytes}

theorem popIndex_eq_ok {bounded : Int → Nat → Bool} {count : Nat} {rest : List Bytes} :
    popIndex stack bounded = .ok (count, rest) ↔
      ∃ top, stack = top :: rest ∧ decodeScriptNum top maxArithNumLen = .ok (count : Int) ∧
        bounded count rest.length = false := by
  cases stack with
  | nil => simp [popIndex, popNum, pop]
  | cons top below =>
      simp only [popIndex, popNum, pop, ok_bind, bind_eq_ok, rejectIf_eq_ok, pure_eq_ok]
      constructor
      · rintro ⟨_, ⟨number, decoded, rfl⟩, _, allowed, same⟩
        simp only [Prod.mk.injEq, Bool.or_eq_false_iff, decide_eq_false_iff_not] at same allowed
        obtain ⟨rfl, rfl⟩ := same
        have value : ((number.toNat : Nat) : Int) = number := by omega
        rw [value]
        exact ⟨top, rfl, decoded, allowed.2⟩
      · rintro ⟨_, same, decoded, allowed⟩
        cases same
        refine ⟨_, ⟨count, decoded, rfl⟩, (), ?_, rfl⟩
        simp [allowed]

/-- A stack as the multisignature opcodes expect it: the number of keys, the keys, the
number of signatures and the signatures, each group with its last element on top. -/
def MultisigLayout (stack keys sigs below : List Bytes) : Prop :=
  ∃ keyCount sigCount, stack = keyCount :: (keys ++ sigCount :: (sigs ++ below)) ∧
    decodeScriptNum keyCount maxArithNumLen = .ok (keys.length : Int) ∧
    decodeScriptNum sigCount maxArithNumLen = .ok (sigs.length : Int)

def SignedInOrder (crypto : Crypto) (env : ScriptEnv) (sigs keys : List Bytes) : Prop :=
  Assignable (fun sig key => crypto.signatureValid env.txHash sig key = true) sigs keys

theorem countValidSigs_signed {sigs keys : List Bytes} :
    sigs.length ≤
        countValidSigs (fun sig key => isOk (checkSig crypto env sig key)) sigs keys ↔
      SignedInOrder crypto env sigs keys := by
  simp only [isOk_checkSig]
  rw [SignedInOrder, ← countValidSigs_eq_length]
  exact ⟨(countValidSigs_le sigs keys).antisymm, fun all => all.ge⟩

theorem popIndex_group {count : Nat} {rest : List Bytes} :
    (popIndex stack (fun n depth => decide (n.toNat > depth)) = .ok (count, rest)) ↔
      ∃ top, stack = top :: rest ∧
        decodeScriptNum top maxArithNumLen = .ok (count : Int) ∧ count ≤ rest.length := by
  rw [popIndex_eq_ok]
  simp

theorem checkMultisig_eq_ok {verify : Bool} :
    checkMultisig crypto env verify stack = .ok after ↔
      ∃ keys sigs below success, MultisigLayout stack keys sigs below ∧
        sigs.length ≤ keys.length ∧ (success = true ↔ SignedInOrder crypto env sigs keys) ∧
        (verify = true → success = true) ∧
        after = boolToBytes success :: below.drop 1 := by
  simp only [checkMultisig, bind_eq_ok, Prod.exists, popIndex_group, rejectIf_eq_ok,
    pure_eq_ok]
  constructor
  · rintro ⟨keyCount, afterKeys, ⟨keyBytes, rfl, keysDecoded, keysFit⟩, sigCount, afterSigs,
      ⟨sigBytes, split, sigsDecoded, sigsFit⟩, _, enough, _, verified, rfl⟩
    have keysLength : (afterKeys.take keyCount).length = keyCount := by simpa using keysFit
    have sigsLength : (afterSigs.take sigCount).length = sigCount := by simpa using sigsFit
    refine ⟨afterKeys.take keyCount, afterSigs.take sigCount, afterSigs.drop sigCount, _,
      ⟨keyBytes, sigBytes, ?_, ?_, ?_⟩, ?_, ?_, ?_, rfl⟩
    · rw [List.take_append_drop, ← split, List.take_append_drop]
    · rw [keysLength, keysDecoded]
    · rw [sigsLength, sigsDecoded]
    · rw [keysLength, sigsLength]
      simpa using enough
    · rw [decide_eq_true_iff, ← countValidSigs_signed, sigsLength]
    · intro verifying
      simpa [verifying] using verified
  · rintro ⟨keys, sigs, below, success, ⟨keyBytes, sigBytes, rfl, keysDecoded, sigsDecoded⟩,
      enough, signed, verified, rfl⟩
    have keysTaken : (keys ++ sigBytes :: (sigs ++ below)).take keys.length = keys := by simp
    have sigsTaken : (sigs ++ below).take sigs.length = sigs := by simp
    have outcome : decide (countValidSigs (fun sig key => isOk (checkSig crypto env sig key))
        sigs keys ≥ sigs.length) = success := by
      rw [Bool.eq_iff_iff, decide_eq_true_iff, signed]
      exact countValidSigs_signed
    refine ⟨keys.length, _, ⟨keyBytes, rfl, keysDecoded, by simp⟩, sigs.length, sigs ++ below,
      ⟨sigBytes, by simp, sigsDecoded, by simp⟩, (), by simpa using enough, (), ?_, ?_⟩
    · rw [keysTaken, sigsTaken, outcome]
      cases verify <;> simp_all
    · rw [keysTaken, sigsTaken, outcome]
      simp

end Opcode

theorem multisigLayout_unique {stack keys sigs below keys' sigs' below' : List Bytes}
    (first : MultisigLayout stack keys sigs below)
    (second : MultisigLayout stack keys' sigs' below') :
    keys = keys' ∧ sigs = sigs' ∧ below = below' := by
  obtain ⟨keyCount, sigCount, rfl, keysDecoded, sigsDecoded⟩ := first
  obtain ⟨_, _, same, keysDecoded', sigsDecoded'⟩ := second
  obtain ⟨rfl, keysOn⟩ := List.cons_eq_cons.mp same
  have keyLengths : keys.length = keys'.length := by
    rw [keysDecoded] at keysDecoded'
    simpa using keysDecoded'
  obtain ⟨rfl, countOn⟩ := List.append_inj keysOn keyLengths
  obtain ⟨rfl, sigsOn⟩ := List.cons_eq_cons.mp countOn
  have sigLengths : sigs.length = sigs'.length := by
    rw [sigsDecoded] at sigsDecoded'
    simpa using sigsDecoded'
  obtain ⟨rfl, rfl⟩ := List.append_inj sigsOn sigLengths
  exact ⟨rfl, rfl, rfl⟩

theorem checkMultisig_true_iff {crypto : Crypto} {env : ScriptEnv} {verify : Bool}
    {stack keys sigs below : List Bytes} (layout : MultisigLayout stack keys sigs below) :
    checkMultisig crypto env verify stack = .ok (boolToBytes true :: below.drop 1) ↔
      SignedInOrder crypto env sigs keys := by
  rw [checkMultisig_eq_ok]
  constructor
  · rintro ⟨_, _, _, success, found, -, signed, -, pushed⟩
    obtain ⟨rfl, rfl, rfl⟩ := multisigLayout_unique layout found
    cases success with
    | true => exact signed.mp rfl
    | false => cases pushed
  · intro signed
    exact ⟨keys, sigs, below, true, layout, signed.length_le, by simpa using signed,
      fun _ => rfl, rfl⟩

/-- A dummy, a group of signatures, their number, a group of keys and their number, pushed
one after the other on a stack. -/
def multisigPushed (dummy : Bytes) (sigs : List Bytes) (sigCount : Bytes) (keys : List Bytes)
    (keyCount : Bytes) (stack : List Bytes) : List Bytes :=
  keyCount :: (keys.reverse ++ sigCount :: (sigs.reverse ++ dummy :: stack))

/-- `OP_CHECKMULTISIG` replaces the pushed groups by true. -/
def MultisigAccepted (crypto : Crypto) (env : ScriptEnv) (state : RunState) (dummy : Bytes)
    (sigs : List Bytes) (sigCount : Bytes) (keys : List Bytes) (keyCount : Bytes) : Prop :=
  execItem crypto env (.opcode 0xae)
      { state with stack := multisigPushed dummy sigs sigCount keys keyCount state.stack } =
    .ok { state with stack := boolToBytes true :: state.stack }

/-- The signature at one position is valid for the key at another. -/
def VerifiesAt (crypto : Crypto) (env : ScriptEnv) (sigs keys : List Bytes)
    (signature : Fin sigs.length) (key : Fin keys.length) : Prop :=
  crypto.signatureValid env.txHash (sigs.get signature) (keys.get key) = true

theorem multisigAccepted_iff {crypto : Crypto} {env : ScriptEnv} {state : RunState}
    {dummy sigCount keyCount : Bytes} {sigs keys : List Bytes}
    (executing : state.executing = true)
    (sigsCounted : decodeScriptNum sigCount maxArithNumLen = .ok (sigs.length : Int))
    (keysCounted : decodeScriptNum keyCount maxArithNumLen = .ok (keys.length : Int)) :
    MultisigAccepted crypto env state dummy sigs sigCount keys keyCount ↔
      ∃ assignment : Fin sigs.length ↪o Fin keys.length,
        ∀ signature, VerifiesAt crypto env sigs keys signature (assignment signature) := by
  obtain ⟨⟨stack, altStack⟩, _, ifStack⟩ := state
  obtain rfl : _ = true := executing
  have layout : MultisigLayout (multisigPushed dummy sigs sigCount keys keyCount stack)
      keys.reverse sigs.reverse (dummy :: stack) :=
    ⟨keyCount, sigCount, rfl, by simpa using keysCounted, by simpa using sigsCounted⟩
  calc MultisigAccepted crypto env ⟨⟨stack, altStack⟩, true, ifStack⟩ dummy sigs sigCount keys
        keyCount
      ↔ checkMultisig crypto env false
          (multisigPushed dummy sigs sigCount keys keyCount stack) =
            .ok (boolToBytes true :: stack) := by
        rw [MultisigAccepted, execItem_onStack (by decide)]
        simp only [stackItem, bind_eq_ok]
        constructor
        · rintro ⟨after, ran, same⟩
          cases same
          exact ran
        · intro ran
          exact ⟨_, ran, rfl⟩
    _ ↔ SignedInOrder crypto env sigs.reverse keys.reverse := checkMultisig_true_iff layout
    _ ↔ SignedInOrder crypto env sigs keys := assignable_reverse
    _ ↔ _ := assignable_iff_exists_orderEmbedding

/-- On a dummy, a counted group of signatures and a counted group of keys,
`OP_CHECKMULTISIG` pushes true exactly when the signatures can be assigned to keys that
verify them, later signatures to later keys.  Two signatures are not both counted when no
key of the later one comes after a key of the earlier one, as it is for a signature repeated
under its only key. -/
theorem multisig_true_iff_assigned (crypto : Crypto) (env : ScriptEnv) (state : RunState)
    (dummy sigCount keyCount : Bytes) (sigs keys : List Bytes)
    (executing : state.executing = true)
    (sigsCounted : decodeScriptNum sigCount maxArithNumLen = .ok (sigs.length : Int))
    (keysCounted : decodeScriptNum keyCount maxArithNumLen = .ok (keys.length : Int)) :
    (MultisigAccepted crypto env state dummy sigs sigCount keys keyCount ↔
      ∃ assignment : Fin sigs.length ↪o Fin keys.length,
        ∀ signature, VerifiesAt crypto env sigs keys signature (assignment signature)) ∧
    ∀ earlier later, earlier < later →
      (∀ first second, VerifiesAt crypto env sigs keys earlier first →
        VerifiesAt crypto env sigs keys later second → ¬ first < second) →
      ¬ MultisigAccepted crypto env state dummy sigs sigCount keys keyCount := by
  have characterized : MultisigAccepted crypto env state dummy sigs sigCount keys keyCount ↔ _ :=
    multisigAccepted_iff executing sigsCounted keysCounted
  refine ⟨characterized, fun earlier later ordered apart accepted => ?_⟩
  obtain ⟨assignment, verified⟩ := characterized.mp accepted
  exact apart _ _ (verified earlier) (verified later) (assignment.lt_iff_lt.mpr ordered)

namespace Keyed

/-- The signature by a key is the key itself, followed by the byte of the signed parts. -/
def crypto : Crypto :=
  { Regtest.crypto with verifyEcdsa := fun _ sig pubkey => sig == pubkey }

def env : ScriptEnv := ⟨Regtest.crypto.sha256 [], 0, 0, 0, 0, 0, 0⟩

def running : RunState := ⟨⟨[], []⟩, true, []⟩

end Keyed

/-- The first and the third of three keys sign. -/
theorem two_of_three_assigned :
    ∃ assignment : Fin 2 ↪o Fin 3, ∀ signature,
      VerifiesAt Keyed.crypto Keyed.env [[2, 1], [4, 1]] [[2], [3], [4]] signature
        (assignment signature) :=
  (multisig_true_iff_assigned Keyed.crypto Keyed.env Keyed.running [] [2] [3]
    [[2, 1], [4, 1]] [[2], [3], [4]] rfl rfl rfl).1.mp rfl

end Engine

end Vtorrent
