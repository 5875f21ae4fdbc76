import Vtorrent.Deliveries
import Vtorrent.ScriptPrograms

/-!
# Hash time-locked contracts and cold-stake scripts

Which scripts spend a hash time-locked contract, and when the owner of a lock can take
the coins back.  The builders write the lock as four little-endian bytes and the engine
reads them as a signed number, so the highest bit of a lock is a sign: a lock of exactly
`2 ^ 31` is read as zero, and every larger one as negative.
-/

namespace Vtorrent

open Checked Script Engine

section Items

/-- `OP_SIZE 32 OP_EQUALVERIFY OP_SHA256 <hash> OP_EQUALVERIFY`. -/
def revealing (hashLock : Bytes) : List Item :=
  [.opcode 0x82, .pushData [0x20], .opcode 0x88, .opcode 0xa8, .pushData hashLock,
    .opcode 0x88]

def htlcItems (hashLock : Hash) (recipientHash : ByteVector 20) (expiry : UInt32)
    (refundHash : ByteVector 20) : List Item :=
  ifElse (revealing hashLock.toList ++ payToKey recipientHash.toList)
    (lockUntil (encodeU32 expiry) ++ payToKey refundHash.toList)

def p2csItems (stakingHash : ByteVector 20) (locktime : UInt32)
    (spendingHash : ByteVector 20) : List Item :=
  ifElse (payToKey stakingHash.toList)
    (lockUntil (encodeU32 locktime) ++ payToKey spendingHash.toList)

theorem htlcItems_encodable (hashLock : Hash) (recipientHash : ByteVector 20)
    (expiry : UInt32) (refundHash : ByteVector 20) :
    ∀ item ∈ htlcItems hashLock recipientHash expiry refundHash, item.Encodable := by
  simp [htlcItems, ifElse, revealing, payToKey, lockUntil, Item.Encodable, encodeU32]

theorem p2csItems_encodable (stakingHash : ByteVector 20) (locktime : UInt32)
    (spendingHash : ByteVector 20) :
    ∀ item ∈ p2csItems stakingHash locktime spendingHash, item.Encodable := by
  simp [p2csItems, ifElse, payToKey, lockUntil, Item.Encodable, encodeU32]

theorem payToKey_onStack (keyHash : Bytes) : ∀ item ∈ payToKey keyHash, OnStack item := by
  simp [payToKey, OnStack]

theorem revealing_onStack (hashLock keyHash : Bytes) :
    ∀ item ∈ revealing hashLock ++ payToKey keyHash, OnStack item := by
  simp [revealing, payToKey, OnStack]

theorem lockUntil_onStack (lock keyHash : Bytes) :
    ∀ item ∈ lockUntil lock ++ payToKey keyHash, OnStack item := by
  simp [lockUntil, payToKey, OnStack]

theorem Htlc.buildScript_eq_ok {crypto : Crypto} {decodeBase58 : String → Option Bytes}
    {htlc : Htlc} {bytes : Bytes} (built : htlc.buildScript crypto decodeBase58 = .ok bytes) :
    ∃ recipientHash refundHash,
      addressToHash160 crypto decodeBase58 htlc.recipient = some recipientHash ∧
      addressToHash160 crypto decodeBase58 htlc.refundAddress = some refundHash ∧
      Script.mk bytes =
        assemble (htlcItems htlc.hashLock recipientHash htlc.expiry refundHash) := by
  unfold buildScript at built
  cases recipient : addressToHash160 crypto decodeBase58 htlc.recipient with
  | none => simp [recipient] at built
  | some recipientHash =>
      cases refund : addressToHash160 crypto decodeBase58 htlc.refundAddress with
      | none => simp [recipient, refund] at built
      | some refundHash =>
          simp only [recipient, refund, Except.ok.injEq] at built
          refine ⟨recipientHash, refundHash, rfl, rfl, ?_⟩
          rw [← built]
          simp [assemble, htlcItems, ifElse, revealing, payToKey, lockUntil, Item.encode,
            claimBytes, refundBytes, encodeU32]

theorem buildP2cs_eq (stakingHash spendingHash : ByteVector 20) (locktime : UInt32) :
    buildP2cs stakingHash spendingHash locktime =
      .ok (assemble (p2csItems stakingHash locktime spendingHash)) := by
  simp [buildP2cs, Script.pushSerialized, Script.pushData, Script.pushOpcode, Script.empty,
    maxPushSize, encodeU32, Except.mapError, assemble, p2csItems, ifElse, payToKey,
    lockUntil, Item.encode]

end Items

section Branches

variable {crypto : Crypto} {env : ScriptEnv} {stack after : List Bytes}

theorem intToBytes_eq_thirtyTwo {number : Nat} :
    intToBytes (number : Int) = [0x20] ↔ number = 32 := by
  constructor
  · intro encoded
    have nonnegative : ¬ (number : Int) < 0 := by omega
    simp only [intToBytes, Int.natAbs_natCast, nonnegative, if_false] at encoded
    cases shape : (magnitudeBytes 8 number).getLast? with
    | none => simp [shape] at encoded
    | some last =>
        simp only [shape] at encoded
        split at encoded
        · have lengths := congrArg List.length encoded
          simp only [List.length_append, List.length_singleton, Nat.add_eq_right,
            List.length_eq_zero_iff] at lengths
          simp [lengths] at shape
        · rw [magnitudeBytes] at encoded
          split at encoded
          · cases encoded
          · obtain ⟨low, high⟩ := List.cons.inj encoded
            rw [magnitudeBytes] at high
            split at high
            · rw [← UInt8.toNat_inj] at low
              simp only [UInt8.toNat_ofNat'] at low
              simp at low
              omega
            · cases high
  · rintro rfl
    rfl

theorem stackItems_revealing {hashLock : Bytes} :
    stackItems crypto env (revealing hashLock) stack = .ok after ↔
      ∃ preimage, stack = preimage :: after ∧ preimage.length = 32 ∧
        (crypto.sha256 preimage).toList = hashLock ∧ after.length + 2 < maxStackDepth := by
  simp only [revealing, stackItems, bind_eq_ok, stackItem_size, stackItem_push,
    stackItem_equalVerify, stackItem_sha256]
  constructor
  · rintro ⟨_, ⟨preimage, rest, rfl, rfl⟩, _, ⟨room, rfl⟩, _, ⟨_, sized⟩, _,
      ⟨_, _, top, rfl⟩, _, ⟨-, rfl⟩, _, ⟨_, hashed⟩, same⟩
    cases same
    cases hashed
    obtain ⟨rfl, sized⟩ := List.cons.inj sized
    obtain ⟨encoded, below⟩ := List.cons.inj sized
    cases below.trans top
    exact ⟨preimage, rfl, intToBytes_eq_thirtyTwo.mp encoded, rfl, room⟩
  · rintro ⟨preimage, rfl, sized, rfl, room⟩
    have encoded := intToBytes_eq_thirtyTwo.mpr sized
    refine ⟨_, ⟨preimage, after, rfl, rfl⟩, _, ⟨room, rfl⟩, _,
      ⟨[0x20], ?_⟩, _, ⟨preimage, after, rfl, rfl⟩, _, ⟨?_, rfl⟩, _, ⟨_, rfl⟩, rfl⟩
    · rw [encoded]
    · simp only [List.length_cons]
      omega

/-- What the engine makes of the four bytes of a lock: locks below `2 ^ 31` are checked
as they stand, and the lock `2 ^ 31` as zero. -/
theorem stackItems_locked {lock : UInt32} {keyHash : ByteVector 20} :
    stackItems crypto env (lockUntil (encodeU32 lock) ++ payToKey keyHash.toList) stack =
      .ok after ↔
      ∃ pubkey sig rest, stack = pubkey :: sig :: rest ∧ crypto.hash160 pubkey = keyHash ∧
        rest.length + 3 < maxStackDepth ∧
        after = boolToBytes (crypto.signatureValid env.txHash sig pubkey) :: rest ∧
        (lock.toNat < 2 ^ 31 ∧ LockReached env lock.toNat ∨
          lock.toNat = 2 ^ 31 ∧ LockReached env 0) := by
  simp only [stackItems_append, bind_eq_ok, stackItems_lockUntil, stackItems_payToKey,
    decodeScriptNum_encodeU32]
  constructor
  · rintro ⟨_, ⟨rfl, -, number, decoded, nonnegative, -, reached⟩, pubkey, sig, rest, rfl,
      hashed, room, rfl⟩
    refine ⟨pubkey, sig, rest, rfl, Subtype.ext hashed, room, rfl, ?_⟩
    cases decoded
    by_cases small : lock.toNat < 2 ^ 31
    · rw [if_pos small] at reached
      exact .inl ⟨small, reached⟩
    · rw [if_neg small] at nonnegative reached
      have exact : lock.toNat = 2 ^ 31 := by omega
      rw [exact] at reached
      exact .inr ⟨exact, reached⟩
  · rintro ⟨pubkey, sig, rest, rfl, hashed, room, rfl, reached⟩
    refine ⟨_, ⟨rfl, ?_, _, rfl, ?_⟩, pubkey, sig, rest, rfl, by rw [hashed], room, rfl⟩
    · simp only [List.length_cons]
      omega
    · rcases reached with ⟨small, reached⟩ | ⟨exact, reached⟩
      · rw [if_pos small]
        exact ⟨by omega, by omega, reached⟩
      · rw [if_neg (by omega), exact]
        exact ⟨by omega, by omega, reached⟩

end Branches

namespace Swap

def recipientKey : Bytes := 2 :: List.replicate 32 1

def refundKey : Bytes := 3 :: List.replicate 32 1

/-- The shortest DER signature, followed by the byte of the signed parts. -/
def signature : Bytes := [0x30, 0x06, 0x02, 0x01, 0x01, 0x02, 0x01, 0x01, 0x01]

def crypto : Crypto :=
  { Regtest.crypto with
    verifyEcdsa := fun _ sig pubkey => sig == signature.dropLast && pubkey == refundKey }

def decodeBase58 (text : String) : Option Bytes :=
  let key := if text = "recipient" then recipientKey else refundKey
  let payload := pubkeyAddressPrefix :: (crypto.hash160 key).toList
  some (payload ++ crypto.checksum payload)

def contract (expiry : UInt32) : Htlc where
  hashLock := crypto.sha256 (List.replicate 32 5)
  recipient := "recipient"
  refundAddress := "refund"
  expiry := expiry
  amount := 1000
  fundingTxid := none

def script (expiry : UInt32) : Script :=
  assemble (htlcItems (contract expiry).hashLock (crypto.hash160 recipientKey) expiry
    (crypto.hash160 refundKey))

theorem addresses :
    addressToHash160 crypto decodeBase58 "recipient" = some (crypto.hash160 recipientKey) ∧
      addressToHash160 crypto decodeBase58 "refund" = some (crypto.hash160 refundKey) ∧
      isOk (validateP2pkh crypto decodeBase58 "recipient") = true ∧
      isOk (validateP2pkh crypto decodeBase58 "refund") = true := by
  decide +kernel

theorem recipient_hash : addressToHash160 crypto decodeBase58 "recipient" =
    some (crypto.hash160 recipientKey) := addresses.1

theorem refund_hash : addressToHash160 crypto decodeBase58 "refund" =
    some (crypto.hash160 refundKey) := addresses.2.1

theorem built (expiry : UInt32) :
    (contract expiry).buildScript crypto decodeBase58 = .ok (script expiry).bytes := by
  have accepted : (contract expiry).buildScript crypto decodeBase58 =
      .ok (Htlc.claimBytes (contract expiry).hashLock (crypto.hash160 recipientKey) ++
        Htlc.refundBytes expiry (crypto.hash160 refundKey)) := by
    simp only [Htlc.buildScript, contract, recipient_hash, refund_hash]
  obtain ⟨_, _, sameRecipient, sameRefund, assembled⟩ := Htlc.buildScript_eq_ok accepted
  cases recipient_hash.symm.trans sameRecipient
  cases refund_hash.symm.trans sameRefund
  rw [accepted]
  exact congrArg (fun script : Script => Except.ok script.bytes) assembled

theorem made (expiry : UInt32) :
    Htlc.withExpiry crypto decodeBase58 (contract expiry).hashLock "recipient" "refund"
      expiry 1000 = .ok (contract expiry) := by
  obtain ⟨-, -, recipient, refund⟩ := addresses
  rw [Htlc.withExpiry, recipient, refund]
  rfl

theorem signature_valid (txHash : Hash) :
    crypto.signatureValid txHash signature refundKey = true := rfl

end Swap

section Contracts

variable {crypto : Crypto} {decodeBase58 : String → Option Bytes} {env : ScriptEnv}
variable {scriptSig : Script}

/-- Executing an output locked by a conditional with two branches: the input's script
leaves a selector, and the selected branch leaves a true value. -/
theorem execute_ifElse {first second : List Item}
    (encodable : ∀ item ∈ ifElse first second, item.Encodable)
    (onFirst : ∀ item ∈ first, OnStack item) (onSecond : ∀ item ∈ second, OnStack item)
    (fits : (ifElse first second).length ≤ maxScriptExecSteps)
    (ordinary : isP2sh (assemble (ifElse first second)) = false) :
    execute crypto env scriptSig (assemble (ifElse first second)) = .ok () ↔
      ∃ afterSig selector supplied top rest, runSig crypto env scriptSig = .ok afterSig ∧
        afterSig.stack = selector :: supplied ∧
        stackItems crypto env (if isTrue selector then first else second) supplied =
          .ok (top :: rest) ∧ isTrue top = true := by
  rw [execute_eq_ok ordinary]
  constructor
  · rintro ⟨afterSig, _, ranSig, ran, top, rest, held, truthy⟩
    obtain ⟨selector, supplied, _, shape, branch, rfl⟩ :=
      (run_ifElse encodable onFirst onSecond fits).mp ran
    cases held
    exact ⟨afterSig, selector, supplied, top, rest, ranSig, shape, branch, truthy⟩
  · rintro ⟨afterSig, selector, supplied, top, rest, ranSig, shape, branch, truthy⟩
    exact ⟨afterSig, _, ranSig, (run_ifElse encodable onFirst onSecond fits).mpr
      ⟨selector, supplied, _, shape, branch, rfl⟩, top, rest, rfl, truthy⟩

/-- The supplied values claim a contract: a preimage of 32 bytes and a signature by the
recipient. -/
def Htlc.Claims (crypto : Crypto) (decodeBase58 : String → Option Bytes) (env : ScriptEnv)
    (htlc : Htlc) (supplied : List Bytes) : Prop :=
  ∃ selector preimage pubkey sig rest,
    supplied = selector :: preimage :: pubkey :: sig :: rest ∧ isTrue selector = true ∧
    preimage.length = 32 ∧ crypto.sha256 preimage = htlc.hashLock ∧
    addressToHash160 crypto decodeBase58 htlc.recipient = some (crypto.hash160 pubkey) ∧
    crypto.signatureValid env.txHash sig pubkey = true

/-- The supplied values take a contract back: a signature by the refund key, once the
transaction and the chain have reached the expiry. -/
def Htlc.Refunds (crypto : Crypto) (decodeBase58 : String → Option Bytes) (env : ScriptEnv)
    (htlc : Htlc) (supplied : List Bytes) : Prop :=
  ∃ selector pubkey sig rest,
    supplied = selector :: pubkey :: sig :: rest ∧ isTrue selector = false ∧
    addressToHash160 crypto decodeBase58 htlc.refundAddress = some (crypto.hash160 pubkey) ∧
    crypto.signatureValid env.txHash sig pubkey = true ∧
    htlc.expiry ≤ env.txLockTime ∧ env.inputSequence ≠ 0xffffffff ∧
    if 500000000 ≤ htlc.expiry then htlc.expiry ≤ env.blockTime
    else htlc.expiry.toNat ≤ env.blockHeight

/-- A lock the engine reads as it stands is a lock the transaction and the chain have
reached. -/
theorem LockReached.expiry {lock : UInt32} (reached : LockReached env lock.toNat) :
    lock ≤ env.txLockTime ∧ env.inputSequence ≠ 0xffffffff ∧
      if 500000000 ≤ lock then lock ≤ env.blockTime else lock.toNat ≤ env.blockHeight := by
  refine ⟨UInt32.le_iff_toNat_le.mpr reached.declared, reached.notFinal, ?_⟩
  simp only [UInt32.le_iff_toNat_le]
  exact reached.reached

/-- Executing a contract is running the branch its selector names. -/
theorem execute_htlcItems {hashLock : Hash} {recipientHash refundHash : ByteVector 20}
    {expiry : UInt32} :
    execute crypto env scriptSig
        (assemble (htlcItems hashLock recipientHash expiry refundHash)) = .ok () ↔
      ∃ afterSig selector supplied top rest, runSig crypto env scriptSig = .ok afterSig ∧
        afterSig.stack = selector :: supplied ∧
        stackItems crypto env
          (if isTrue selector then revealing hashLock.toList ++ payToKey recipientHash.toList
          else lockUntil (encodeU32 expiry) ++ payToKey refundHash.toList) supplied =
          .ok (top :: rest) ∧ isTrue top = true := by
  apply execute_ifElse (htlcItems_encodable hashLock recipientHash expiry refundHash)
    (revealing_onStack _ _) (lockUntil_onStack _ _)
  · simp [ifElse, revealing, payToKey, lockUntil, maxScriptExecSteps]
  · simp [isP2sh, assemble, ifElse, revealing, payToKey, lockUntil, Item.encode]

/-- Executing a cold-stake output is running the branch its selector names. -/
theorem execute_p2csItems {stakingHash spendingHash : ByteVector 20} {locktime : UInt32} :
    execute crypto env scriptSig
        (assemble (p2csItems stakingHash locktime spendingHash)) = .ok () ↔
      ∃ afterSig selector supplied top rest, runSig crypto env scriptSig = .ok afterSig ∧
        afterSig.stack = selector :: supplied ∧
        stackItems crypto env
          (if isTrue selector then payToKey stakingHash.toList
          else lockUntil (encodeU32 locktime) ++ payToKey spendingHash.toList) supplied =
          .ok (top :: rest) ∧ isTrue top = true := by
  apply execute_ifElse (p2csItems_encodable stakingHash locktime spendingHash)
    (payToKey_onStack _) (lockUntil_onStack _ _)
  · simp [ifElse, payToKey, lockUntil, maxScriptExecSteps]
  · simp [isP2sh, assemble, ifElse, payToKey, lockUntil, Item.encode, encodeU32]

theorem Htlc.claims_or_refunds {htlc : Htlc} {bytes : Bytes}
    (built : htlc.buildScript crypto decodeBase58 = .ok bytes)
    (readable : htlc.expiry ≠ 0x80000000)
    (spent : execute crypto env scriptSig ⟨bytes⟩ = .ok ()) :
    ∃ afterSig, runSig crypto env scriptSig = .ok afterSig ∧
      (htlc.Claims crypto decodeBase58 env afterSig.stack ∨
        htlc.Refunds crypto decodeBase58 env afterSig.stack) := by
  obtain ⟨recipientHash, refundHash, recipient, refund, assembled⟩ :=
    Htlc.buildScript_eq_ok built
  rw [assembled, execute_htlcItems] at spent
  obtain ⟨afterSig, selector, supplied, top, rest, ranSig, shape, branch, truthy⟩ := spent
  refine ⟨afterSig, ranSig, ?_⟩
  rw [shape]
  cases chosen : isTrue selector with
  | true =>
      rw [if_pos chosen, stackItems_append, bind_eq_ok] at branch
      obtain ⟨_, revealed, keyed⟩ := branch
      obtain ⟨preimage, rfl, sized, hashed, -⟩ := stackItems_revealing.mp revealed
      obtain ⟨pubkey, sig, below, rfl, key, -, left⟩ := stackItems_payToKey.mp keyed
      obtain ⟨rfl, rfl⟩ := List.cons.inj left
      rw [isTrue_boolToBytes] at truthy
      refine .inl ⟨selector, preimage, pubkey, sig, rest, rfl, chosen, sized,
        Subtype.ext hashed, ?_, truthy⟩
      rw [recipient, Subtype.ext key]
  | false =>
      rw [if_neg (by simp [chosen])] at branch
      obtain ⟨pubkey, sig, below, rfl, key, -, left, met⟩ := stackItems_locked.mp branch
      obtain ⟨rfl, rfl⟩ := List.cons.inj left
      rw [isTrue_boolToBytes] at truthy
      rcases met with ⟨-, reached⟩ | ⟨zero, -⟩
      · refine .inr ⟨selector, pubkey, sig, rest, rfl, chosen, ?_, truthy,
          LockReached.expiry reached⟩
        rw [refund, key]
      · exact absurd (UInt32.toNat_inj.mp zero) readable

/-- The input's script supplies a signature by the key with the given hash and asks for
the second branch. -/
def SignsForSecond (crypto : Crypto) (env : ScriptEnv) (keyHash : ByteVector 20)
    (scriptSig : Script) : Prop :=
  ∃ afterSig selector pubkey sig, runSig crypto env scriptSig = .ok afterSig ∧
    afterSig.stack = [selector, pubkey, sig] ∧ isTrue selector = false ∧
    crypto.hash160 pubkey = keyHash ∧ crypto.signatureValid env.txHash sig pubkey = true

theorem SignsForSecond.selected_iff {first : List Item} {lock : UInt32}
    {keyHash : ByteVector 20} (signed : SignsForSecond crypto env keyHash scriptSig) :
    (∃ afterSig selector supplied top rest, runSig crypto env scriptSig = .ok afterSig ∧
      afterSig.stack = selector :: supplied ∧
      stackItems crypto env
        (if isTrue selector then first
        else lockUntil (encodeU32 lock) ++ payToKey keyHash.toList) supplied =
        .ok (top :: rest) ∧ isTrue top = true) ↔
      lock.toNat < 2 ^ 31 ∧ LockReached env lock.toNat ∨
        lock.toNat = 2 ^ 31 ∧ LockReached env 0 := by
  obtain ⟨afterSig, selector, pubkey, sig, ranSig, shape, notChosen, key, valid⟩ := signed
  constructor
  · rintro ⟨_, _, supplied, top, rest, sameSig, sameShape, branch, -⟩
    cases ranSig.symm.trans sameSig
    cases shape.symm.trans sameShape
    rw [if_neg (by simp [notChosen]), stackItems_locked] at branch
    obtain ⟨_, _, _, -, -, -, -, met⟩ := branch
    exact met
  · intro met
    refine ⟨afterSig, selector, [pubkey, sig], [1], [], ranSig, shape, ?_, rfl⟩
    rw [if_neg (by simp [notChosen]), stackItems_locked]
    refine ⟨pubkey, sig, [], rfl, key, by decide, ?_, met⟩
    rw [valid]
    rfl

/-- The shortest script that asks for the second branch. -/
def secondScriptSig (sig pubkey : Bytes) : Script :=
  assemble ([sig, pubkey, []].map Item.pushData)

theorem runSig_secondScriptSig {sig pubkey : Bytes} (shortSig : sig.length ≤ 75)
    (shortKey : pubkey.length ≤ 75) :
    runSig crypto env (secondScriptSig sig pubkey) = .ok ⟨[[], pubkey, sig], []⟩ := by
  have encodable : ∀ item ∈ [sig, pubkey, []].map Item.pushData, item.Encodable := by
    simp [Item.Encodable, shortSig, shortKey]
  exact runSig_pushes (validate_assemble encodable) (items_assemble encodable)
    (by simp [maxScriptExecSteps])

/-- The environment of a transaction that declares no lock, before the first block. -/
def unlockedEnv (txHash : Hash) : ScriptEnv where
  txHash := txHash
  blockHeight := 0
  blockTime := 0
  txLockTime := 0
  inputSequence := 0
  utxoHeight := 0
  utxoTimestamp := 0

theorem lockReached_zero (txHash : Hash) : LockReached (unlockedEnv txHash) 0 where
  notFinal := by simp [unlockedEnv]
  sameKind := by simp [unlockedEnv]
  declared := Nat.zero_le _
  reached := Nat.zero_le _

theorem Htlc.refunded_at_once {htlc : Htlc} {bytes sig pubkey : Bytes} {txHash : Hash}
    (built : htlc.buildScript crypto decodeBase58 = .ok bytes)
    (readAsZero : htlc.expiry = 0x80000000)
    (refund : addressToHash160 crypto decodeBase58 htlc.refundAddress =
      some (crypto.hash160 pubkey))
    (valid : crypto.signatureValid txHash sig pubkey = true)
    (shortSig : sig.length ≤ 75) (shortKey : pubkey.length ≤ 75) :
    execute crypto (unlockedEnv txHash) (secondScriptSig sig pubkey) ⟨bytes⟩ = .ok () ∧
      ∀ afterSig, runSig crypto (unlockedEnv txHash) (secondScriptSig sig pubkey) =
        .ok afterSig →
        ¬ (htlc.Claims crypto decodeBase58 (unlockedEnv txHash) afterSig.stack ∨
          htlc.Refunds crypto decodeBase58 (unlockedEnv txHash) afterSig.stack) := by
  have left : runSig crypto (unlockedEnv txHash) (secondScriptSig sig pubkey) =
      .ok ⟨[[], pubkey, sig], []⟩ := runSig_secondScriptSig shortSig shortKey
  obtain ⟨recipientHash, refundHash, -, sameRefund, assembled⟩ :=
    Htlc.buildScript_eq_ok built
  cases refund.symm.trans sameRefund
  have signed : SignsForSecond crypto (unlockedEnv txHash) (crypto.hash160 pubkey)
      (secondScriptSig sig pubkey) :=
    ⟨_, [], pubkey, sig, left, rfl, rfl, rfl, valid⟩
  constructor
  · rw [assembled, execute_htlcItems, signed.selected_iff, readAsZero]
    exact .inr ⟨rfl, lockReached_zero txHash⟩
  · intro afterSig ran how
    cases left.symm.trans ran
    rcases how with ⟨_, _, _, _, _, same, -⟩ | ⟨_, _, _, _, -, -, -, -, reached, -⟩
    · cases same
    · rw [readAsZero] at reached
      exact absurd reached (by simp [unlockedEnv])

/-- A hash time-locked contract is spent only by a claim or by a refund after its expiry,
exactly when its expiry is not the one lock the engine reads as zero. -/
theorem htlc_spent_by_claim_or_refund_iff {htlc : Htlc} {bytes : Bytes}
    (built : htlc.buildScript crypto decodeBase58 = .ok bytes)
    (signer : ∃ txHash sig pubkey,
      addressToHash160 crypto decodeBase58 htlc.refundAddress =
        some (crypto.hash160 pubkey) ∧
      crypto.signatureValid txHash sig pubkey = true ∧
      sig.length ≤ 75 ∧ pubkey.length ≤ 75) :
    (∀ env scriptSig, execute crypto env scriptSig ⟨bytes⟩ = .ok () →
      ∃ afterSig, runSig crypto env scriptSig = .ok afterSig ∧
        (htlc.Claims crypto decodeBase58 env afterSig.stack ∨
          htlc.Refunds crypto decodeBase58 env afterSig.stack)) ↔
      htlc.expiry ≠ 0x80000000 := by
  constructor
  · intro onlyThese readAsZero
    obtain ⟨txHash, sig, pubkey, refund, valid, shortSig, shortKey⟩ := signer
    obtain ⟨spent, neither⟩ :=
      Htlc.refunded_at_once built readAsZero refund valid shortSig shortKey
    obtain ⟨afterSig, ran, how⟩ := onlyThese _ _ spent
    exact neither afterSig ran how
  · intro readable env scriptSig spent
    exact Htlc.claims_or_refunds built readable spent

theorem htlc_spent_by_claim_or_refund_of_height :
    (∀ env scriptSig, execute Swap.crypto env scriptSig (Swap.script 144) = .ok () →
      ∃ afterSig, runSig Swap.crypto env scriptSig = .ok afterSig ∧
        ((Swap.contract 144).Claims Swap.crypto Swap.decodeBase58 env afterSig.stack ∨
          (Swap.contract 144).Refunds Swap.crypto Swap.decodeBase58 env afterSig.stack)) ↔
      (Swap.contract 144).expiry ≠ 0x80000000 :=
  htlc_spent_by_claim_or_refund_iff (Swap.built 144)
    ⟨zeroHash, Swap.signature, Swap.refundKey, Swap.refund_hash,
      Swap.signature_valid zeroHash, by decide, by decide⟩

/-- A contract that expires in 2038 is refunded before the first block. -/
theorem htlc_refunded_before_expiry :
    (Swap.contract 0x80000000).buildScript Swap.crypto Swap.decodeBase58 =
      .ok (Swap.script 0x80000000).bytes ∧
    execute Swap.crypto (unlockedEnv zeroHash)
      (secondScriptSig Swap.signature Swap.refundKey) (Swap.script 0x80000000) = .ok () ∧
    ∀ afterSig, runSig Swap.crypto (unlockedEnv zeroHash)
        (secondScriptSig Swap.signature Swap.refundKey) = .ok afterSig →
      ¬ ((Swap.contract 0x80000000).Claims Swap.crypto Swap.decodeBase58
          (unlockedEnv zeroHash) afterSig.stack ∨
        (Swap.contract 0x80000000).Refunds Swap.crypto Swap.decodeBase58
          (unlockedEnv zeroHash) afterSig.stack) :=
  ⟨Swap.built 0x80000000, Htlc.refunded_at_once (Swap.built 0x80000000) rfl
    Swap.refund_hash (Swap.signature_valid zeroHash) (by decide) (by decide)⟩

/-- An output that the builders lock until `lock` for the key with the given hash: the
refund branch of a contract or the cold branch of a cold-stake script. -/
inductive TimeLocked (crypto : Crypto) (decodeBase58 : String → Option Bytes)
    (lock : UInt32) (keyHash : ByteVector 20) : Script → Prop
  | htlc {hashLock : Hash} {recipient refundAddress : String} {amount : UInt64}
      {htlc : Htlc} {bytes : Bytes}
      (made : Htlc.withExpiry crypto decodeBase58 hashLock recipient refundAddress lock
        amount = .ok htlc)
      (built : htlc.buildScript crypto decodeBase58 = .ok bytes)
      (refund : addressToHash160 crypto decodeBase58 refundAddress = some keyHash) :
      TimeLocked crypto decodeBase58 lock keyHash ⟨bytes⟩
  | p2cs {stakingHash : ByteVector 20} {script : Script}
      (built : buildP2cs stakingHash keyHash lock = .ok script) :
      TimeLocked crypto decodeBase58 lock keyHash script

/-- An attempt to recover a time-locked output: a signature by its key on the second
branch, in a transaction that declares the lock itself, once the chain is there. -/
structure Recovery (crypto : Crypto) (env : ScriptEnv) (lock : UInt32)
    (keyHash : ByteVector 20) (scriptSig : Script) : Prop where
  signed : SignsForSecond crypto env keyHash scriptSig
  declared : env.txLockTime = lock
  notFinal : env.inputSequence ≠ 0xffffffff
  reached : if 500000000 ≤ lock then lock ≤ env.blockTime else lock.toNat ≤ env.blockHeight

theorem Recovery.lockReached {lock : UInt32} {keyHash : ByteVector 20}
    (recovery : Recovery crypto env lock keyHash scriptSig) :
    LockReached env lock.toNat where
  notFinal := recovery.notFinal
  sameKind := by rw [recovery.declared]
  declared := by rw [recovery.declared]
  reached := by
    have reached := recovery.reached
    simp only [UInt32.le_iff_toNat_le] at reached
    exact reached

/-- An attempt to recover a time-locked output is accepted exactly when the highest bit
of the lock is clear. -/
theorem recovery_accepted_iff {lock : UInt32} {keyHash : ByteVector 20} {script : Script}
    (locked : TimeLocked crypto decodeBase58 lock keyHash script)
    (recovery : Recovery crypto env lock keyHash scriptSig) :
    execute crypto env scriptSig script = .ok () ↔ lock.toNat < 2 ^ 31 := by
  have selected : (lock.toNat < 2 ^ 31 ∧ LockReached env lock.toNat ∨
      lock.toNat = 2 ^ 31 ∧ LockReached env 0) ↔ lock.toNat < 2 ^ 31 := by
    constructor
    · rintro (⟨small, -⟩ | ⟨exact, reached⟩)
      · exact small
      · have kind := reached.sameKind
        rw [recovery.declared, exact] at kind
        omega
    · exact fun small => .inl ⟨small, recovery.lockReached⟩
  cases locked with
  | htlc made built refund =>
      obtain ⟨recipientHash, refundHash, -, sameRefund, assembled⟩ :=
        Htlc.buildScript_eq_ok built
      simp only [Htlc.withExpiry, bind_eq_ok, rejectIf_eq_ok, pure_eq_ok] at made
      obtain ⟨_, -, _, -, _, -, rfl⟩ := made
      cases refund.symm.trans sameRefund
      rw [assembled, execute_htlcItems, recovery.signed.selected_iff, selected]
  | p2cs built =>
      rw [buildP2cs_eq] at built
      cases built
      rw [execute_p2csItems, recovery.signed.selected_iff, selected]

/-- The environment of a transaction that declares a lock the chain has just reached. -/
def lockedEnv (lock : UInt32) : ScriptEnv where
  txHash := zeroHash
  blockHeight := 144
  blockTime := lock
  txLockTime := lock
  inputSequence := 0
  utxoHeight := 0
  utxoTimestamp := 0

theorem Swap.recovery {lock : UInt32} (isTime : 500000000 ≤ lock) :
    Recovery Swap.crypto (lockedEnv lock) lock (Swap.crypto.hash160 Swap.refundKey)
      (secondScriptSig Swap.signature Swap.refundKey) where
  signed := ⟨_, [], Swap.refundKey, Swap.signature,
    runSig_secondScriptSig (by decide) (by decide), rfl, rfl, rfl,
    Swap.signature_valid _⟩
  declared := rfl
  notFinal := by simp [lockedEnv]
  reached := by
    rw [if_pos isTime]
    exact UInt32.le_refl lock

theorem Swap.timeLocked (lock : UInt32) :
    TimeLocked Swap.crypto Swap.decodeBase58 lock (Swap.crypto.hash160 Swap.refundKey)
      (Swap.script lock) :=
  .htlc (Swap.made lock) (Swap.built lock) Swap.refund_hash

theorem recovery_accepted_iff_of_time :
    execute Swap.crypto (lockedEnv 1900000000)
      (secondScriptSig Swap.signature Swap.refundKey) (Swap.script 1900000000) = .ok () ↔
      (1900000000 : UInt32).toNat < 2 ^ 31 :=
  recovery_accepted_iff (Swap.timeLocked 1900000000) (Swap.recovery (by decide))

/-- Neither builder's output is recovered once time has reached the lock `2 ^ 31`. -/
theorem recovery_rejected_at_high_bit :
    Recovery Swap.crypto (lockedEnv 0x80000000) 0x80000000
      (Swap.crypto.hash160 Swap.refundKey)
      (secondScriptSig Swap.signature Swap.refundKey) ∧
    TimeLocked Swap.crypto Swap.decodeBase58 0x80000000
      (Swap.crypto.hash160 Swap.refundKey) (Swap.script 0x80000000) ∧
    execute Swap.crypto (lockedEnv 0x80000000)
      (secondScriptSig Swap.signature Swap.refundKey) (Swap.script 0x80000000) =
      .error .unsatisfiedLocktime ∧
    ∃ script, buildP2cs (Swap.crypto.hash160 Swap.recipientKey)
        (Swap.crypto.hash160 Swap.refundKey) 0x80000000 = .ok script ∧
      execute Swap.crypto (lockedEnv 0x80000000)
        (secondScriptSig Swap.signature Swap.refundKey) script =
        .error .unsatisfiedLocktime :=
  ⟨Swap.recovery (by decide), Swap.timeLocked _, by decide,
    _, buildP2cs_eq _ _ _, by decide⟩

end Contracts

end Vtorrent
