import Vtorrent.ContinuedVarints
import Vtorrent.DeliveredBlocks

/-!
# Amounts of the legacy chainstate

The balances of the legacy chain are read from a database of compressed outputs.  An integer is
read byte by byte into 64 bits.  The shift by seven bits loses what does not fit, so a long
integer can be read as a smaller one.
-/

namespace Vtorrent

open ContinuedVarints

def checkedAdd64 (first second : UInt64) : Option UInt64 :=
  if first.toNat + second.toNat < 2 ^ 64 then some (first + second) else none

def checkedMul64 (first second : UInt64) : Option UInt64 :=
  if first.toNat * second.toNat < 2 ^ 64 then some (first * second) else none

/-- The loop of `decode_varint_base128`; `checked_shl` by seven never fails. -/
def decodeVarintFrom : UInt64 → Nat → Bytes → Option (UInt64 × Nat)
  | _, _, [] => none
  | n, consumed, byte :: data => do
      let consumed := consumed + 1
      let n ← checkedAdd64 (n <<< 7) (byte &&& 0x7f).toUInt64
      if byte &&& 0x80 ≠ 0 then
        let n ← checkedAdd64 n 1
        if consumed > 10 then none else decodeVarintFrom n consumed data
      else some (n, consumed)

def decodeVarintBase128 (data : Bytes) : Option (UInt64 × Nat) := decodeVarintFrom 0 0 data

/-- A compressed amount; the exponent counts the zeros that were dropped. -/
def decompressAmount (x : UInt64) : Option UInt64 :=
  if x = 0 then some 0
  else
    let x := x - 1
    let e := x % 10
    let x := x / 10
    let n := if e < 9 then x / 9 * 10 + (x % 9 + 1) else x + 1
    (List.range e.toNat).foldlM (fun n _ => checkedMul64 n 10) n

example : decodeVarintBase128 [0x81, 0x00] = some (256, 2) := by decide
example : decodeVarintBase128 [0x82, 0xfe, 0x7f] = some (65535, 3) := by decide

section Loop

theorem toNat_shiftLeft_seven (n : UInt64) : (n <<< 7).toNat = n.toNat * 128 % 2 ^ 64 := by
  rw [UInt64.toNat_shiftLeft]
  simp [Nat.shiftLeft_eq]

theorem toNat_low_bits (byte : UInt8) : (byte &&& 0x7f).toUInt64.toNat = byte.toNat % 128 := by
  rw [UInt8.toNat_toUInt64, UInt8.toNat_and]
  exact Nat.and_two_pow_sub_one_eq_mod byte.toNat 7

theorem high_bit_iff (byte : UInt8) : byte &&& 0x80 ≠ 0 ↔ Continues byte := by
  have small := byte.toNat_lt
  have bit : byte.toNat &&& 128 = (byte.toNat.testBit 7).toNat * 2 ^ 7 := Nat.and_two_pow _ 7
  rw [Ne, ← UInt8.toNat_inj, UInt8.toNat_and, Continues, show (0x80 : UInt8).toNat = 128 from rfl,
    bit, Nat.testBit_eq_decide_div_mod_eq]
  simp
  omega

theorem checkedAdd64_shifted (n : UInt64) (byte : UInt8) {number : Nat}
    (reached : n.toNat = number % 2 ^ 64) :
    ∃ next, checkedAdd64 (n <<< 7) (byte &&& 0x7f).toUInt64 = some next ∧
      next.toNat = (128 * number + byte.toNat % 128) % 2 ^ 64 := by
  have fits : (n <<< 7).toNat + (byte &&& 0x7f).toUInt64.toNat < 2 ^ 64 := by
    rw [toNat_shiftLeft_seven, toNat_low_bits]
    omega
  refine ⟨_, if_pos fits, ?_⟩
  rw [UInt64.toNat_add, Nat.mod_eq_of_lt fits, toNat_shiftLeft_seven, toNat_low_bits, reached]
  omega

/-- No part of the continuation bytes reaches a multiple of the word size. -/
def NeverZero (start : Nat) (continued : Bytes) : Prop :=
  ∀ part, part <+: continued → part ≠ [] → accumulate start part % 2 ^ 64 ≠ 0

theorem neverZero_cons {start : Nat} {byte : UInt8} {continued : Bytes} :
    NeverZero start (byte :: continued) ↔
      (128 * start + byte.toNat % 128 + 1) % 2 ^ 64 ≠ 0 ∧
        NeverZero (128 * start + byte.toNat % 128 + 1) continued := by
  constructor
  · intro never
    refine ⟨?_, fun part first nonempty => ?_⟩
    · simpa [accumulate] using never [byte] (by simp) (by simp)
    · simpa using never (byte :: part) (by simpa using first) (by simp)
  · rintro ⟨here, later⟩ part first nonempty
    obtain ⟨other, part, rfl⟩ := List.exists_cons_of_ne_nil nonempty
    obtain ⟨rfl, inner⟩ := List.cons_prefix_cons.mp first
    by_cases none : part = []
    · subst none
      simpa [accumulate] using here
    · simpa using later part inner none

theorem decodeVarintFrom_truncated {data : Bytes}
    (truncated : ∀ byte ∈ data, Continues byte) (n : UInt64) (consumed : Nat) :
    decodeVarintFrom n consumed data = none := by
  induction data generalizing n consumed with
  | nil => rfl
  | cons byte data ih =>
      have more : byte &&& 0x80 ≠ 0 := (high_bit_iff byte).mpr (truncated byte List.mem_cons_self)
      have rest := ih fun byte member => truncated byte (List.mem_cons_of_mem _ member)
      have reached : n.toNat = n.toNat % 2 ^ 64 := (Nat.mod_eq_of_lt n.toNat_lt).symm
      obtain ⟨next, added, _⟩ := checkedAdd64_shifted n byte reached
      simp only [decodeVarintFrom, added, Option.bind_eq_bind, Option.bind_some, if_pos more, rest]
      cases checkedAdd64 next 1 with
      | none => rfl
      | some _ => simp

theorem decodeVarintFrom_cons {byte : UInt8} (more : Continues byte) (data : Bytes) {n : UInt64}
    {number : Nat} (reached : n.toNat = number % 2 ^ 64) (consumed : Nat) :
    ∃ next : UInt64, next.toNat = (128 * number + byte.toNat % 128 + 1) % 2 ^ 64 ∧
      decodeVarintFrom n consumed (byte :: data) =
        if (128 * number + byte.toNat % 128 + 1) % 2 ^ 64 = 0 ∨ 10 < consumed + 1 then none
        else decodeVarintFrom next (consumed + 1) data := by
  obtain ⟨sum, added, total⟩ := checkedAdd64_shifted n byte reached
  have one : (1 : UInt64).toNat = 1 := rfl
  refine ⟨sum + 1, ?_, ?_⟩
  · rw [UInt64.toNat_add, total, one]
    omega
  · simp only [decodeVarintFrom, added, Option.bind_eq_bind, Option.bind_some,
      if_pos ((high_bit_iff byte).mpr more)]
    rw [checkedAdd64, one]
    by_cases zero : (128 * number + byte.toNat % 128 + 1) % 2 ^ 64 = 0
    · rw [if_neg (by omega), if_pos (.inl zero)]
      rfl
    · rw [if_pos (by omega), Option.bind_some]
      simp only [zero, false_or, gt_iff_lt]

/-- What the loop makes of a complete integer: the value without the bits above the word. -/
theorem decodeVarintFrom_complete {continued : Bytes} {last : UInt8} (rest : Bytes)
    (all : ∀ byte ∈ continued, Continues byte) (ends : ¬ Continues last) {n : UInt64}
    {number consumed : Nat} (reached : n.toNat = number % 2 ^ 64) (begun : consumed ≤ 10) :
    (consumed + continued.length ≤ 10 → NeverZero number continued →
      ∃ v, decodeVarintFrom n consumed (continued ++ last :: rest) =
          some (v, consumed + continued.length + 1) ∧
        v.toNat = (128 * accumulate number continued + last.toNat) % 2 ^ 64) ∧
    (¬ (consumed + continued.length ≤ 10 ∧ NeverZero number continued) →
      decodeVarintFrom n consumed (continued ++ last :: rest) = none) := by
  induction continued generalizing n number consumed with
  | nil =>
      refine ⟨fun _ _ => ?_, fun fails => ?_⟩
      · obtain ⟨sum, added, total⟩ := checkedAdd64_shifted n last reached
        have small : last.toNat % 128 = last.toNat := Nat.mod_eq_of_lt (not_le.mp ends)
        have done : ¬ last &&& 0x80 ≠ 0 := fun bit => ends ((high_bit_iff last).mp bit)
        refine ⟨sum, ?_, by rw [total, small]; rfl⟩
        simp only [List.nil_append, decodeVarintFrom, added, Option.bind_eq_bind,
          Option.bind_some, if_neg done, List.length_nil, Nat.add_zero]
      · refine absurd ⟨by simpa using begun, fun part first nonempty => ?_⟩ fails
        exact absurd (List.prefix_nil.mp first) nonempty
  | cons byte continued ih =>
      have rest' := fun other member => all other (List.mem_cons_of_mem byte member)
      obtain ⟨next, total, step⟩ := decodeVarintFrom_cons (all byte List.mem_cons_self)
        (continued ++ last :: rest) reached consumed
      rw [List.cons_append, step, neverZero_cons]
      refine ⟨fun short never => ?_, fun fails => ?_⟩
      · rw [List.length_cons] at short
        rw [if_neg (by rintro (zero | long); exacts [never.1 zero, by omega])]
        have begun' : consumed + 1 ≤ 10 := by omega
        obtain ⟨v, decoded, value⟩ := (ih rest' total begun').1 (by omega) never.2
        refine ⟨v, ?_, by rw [value, accumulate_cons]⟩
        rw [decoded, List.length_cons]
        congr 2
        omega
      · by_cases stops : (128 * number + byte.toNat % 128 + 1) % 2 ^ 64 = 0 ∨ 10 < consumed + 1
        · rw [if_pos stops]
        · rw [if_neg stops]
          rw [not_or] at stops
          have begun' : consumed + 1 ≤ 10 := by omega
          refine (ih rest' total begun').2 fun ⟨short, never⟩ => fails ⟨?_, stops.1, never⟩
          rw [List.length_cons]
          omega

end Loop

/-- The decoded integers are exactly the complete integers below the word size. -/
def DecodesExactly (data : Bytes) : Prop :=
  ∀ (v : UInt64) (n : Nat), decodeVarintBase128 data = some (v, n) ↔
    n ≤ data.length ∧ IsVarint (data.take n) v.toNat

/-- The bytes begin with a complete integer of at most eleven bytes that does not fit into the
word, and no part of it reaches a multiple of the word size. -/
def Wraps (data : Bytes) : Prop :=
  ∃ continued last rest, data = continued ++ last :: rest ∧
    (∀ byte ∈ continued, Continues byte) ∧ ¬ Continues last ∧ continued.length ≤ 10 ∧
    2 ^ 64 ≤ value continued last ∧ NeverZero 0 continued

section Exact

variable {continued rest : Bytes} {last : UInt8}

theorem wraps_iff (all : ∀ byte ∈ continued, Continues byte) (ends : ¬ Continues last) :
    Wraps (continued ++ last :: rest) ↔
      continued.length ≤ 10 ∧ 2 ^ 64 ≤ value continued last ∧ NeverZero 0 continued := by
  constructor
  · rintro ⟨others, final, more, whole, allOthers, finalEnds, short, large, never⟩
    obtain ⟨rfl, rfl⟩ := continued_unique allOthers finalEnds all ends whole
    exact ⟨short, large, never⟩
  · rintro ⟨short, large, never⟩
    exact ⟨continued, last, rest, rfl, all, ends, short, large, never⟩

/-- An integer below the word size is short, and none of its parts reaches the word size. -/
theorem survives_of_value_lt (small : value continued last < 2 ^ 64) :
    continued.length ≤ 10 ∧ NeverZero 0 continued := by
  refine ⟨?_, fun part first nonempty => ?_⟩
  · by_contra long
    have bound := pow_le_value (List.ne_nil_of_length_pos (by omega : 0 < continued.length)) last
    have large : 128 ^ 10 ≤ 128 ^ continued.length :=
      Nat.pow_le_pow_right (by decide) (by omega)
    have word : 2 ^ 64 ≤ 128 ^ 10 := by norm_num
    omega
  · have positive := @accumulate_pos 0 part nonempty
    have below := @accumulate_prefix_le 0 part continued first
    rw [value] at small
    rw [Nat.mod_eq_of_lt (by omega)]
    omega

theorem decodesExactly_complete_iff (all : ∀ byte ∈ continued, Continues byte)
    (ends : ¬ Continues last) :
    DecodesExactly (continued ++ last :: rest) ↔ ¬ Wraps (continued ++ last :: rest) := by
  obtain ⟨decodes, refuses⟩ := @decodeVarintFrom_complete continued last rest all ends 0 0 0
    rfl (Nat.zero_le _)
  rw [wraps_iff all ends, DecodesExactly]
  simp only [isVarint_take_iff all ends]
  by_cases survives : continued.length ≤ 10 ∧ NeverZero 0 continued
  · obtain ⟨v, decoded, wrapped⟩ := decodes (by omega) survives.2
    rw [← value, Nat.zero_add] at *
    constructor
    · rintro exact ⟨_, large, _⟩
      have := ((exact v _).mp decoded).2
      have := v.toNat_lt
      omega
    · intro fits w n
      have small : value continued last < 2 ^ 64 := by
        by_contra large
        exact fits ⟨survives.1, by omega, survives.2⟩
      rw [Nat.mod_eq_of_lt small] at wrapped
      rw [decodeVarintBase128, decoded, Option.some.injEq, Prod.mk.injEq]
      constructor
      · rintro ⟨rfl, rfl⟩
        exact ⟨rfl, wrapped⟩
      · rintro ⟨rfl, same⟩
        exact ⟨UInt64.toNat_inj.mp (wrapped.trans same.symm), rfl⟩
  · have none := refuses (by simpa using survives)
    constructor
    · rintro _ ⟨short, _, never⟩
      exact survives ⟨short, never⟩
    · intro _ v n
      rw [decodeVarintBase128, none]
      constructor
      · intro given
        cases given
      · rintro ⟨_, same⟩
        exact absurd (survives_of_value_lt (same ▸ v.toNat_lt)) survives

end Exact

theorem decodesExactly_iff (data : Bytes) : DecodesExactly data ↔ ¬ Wraps data := by
  rcases truncated_or_complete data with truncated | ⟨continued, last, rest, rfl, all, ends⟩
  · refine iff_of_true (fun v n => ?_) ?_
    · rw [decodeVarintBase128, decodeVarintFrom_truncated truncated]
      constructor
      · intro given
        cases given
      · rintro ⟨_, complete⟩
        exact absurd complete (not_isVarint_of_truncated truncated n v.toNat)
    · rintro ⟨continued, last, rest, rfl, _, ends, _⟩
      exact ends (truncated last (by simp))
  · exact decodesExactly_complete_iff all ends

/-! ## Compressed amounts -/

/-- The digits of a compressed amount without its dropped zeros. -/
def mantissa (code : Nat) : Nat :=
  if code % 10 < 9 then code / 10 / 9 * 10 + (code / 10 % 9 + 1) else code / 10 + 1

theorem toNat_foldlM_checkedMul {turns : List Nat} {n amount : UInt64}
    (grown : turns.foldlM (fun n _ => checkedMul64 n 10) n = some amount) :
    amount.toNat = n.toNat * 10 ^ turns.length := by
  induction turns generalizing n with
  | nil =>
      obtain rfl := Option.some.inj grown
      simp
  | cons turn turns ih =>
      rw [List.foldlM_cons, checkedMul64] at grown
      split at grown
      · rename_i fits
        have product : (n * 10).toNat = n.toNat * 10 := by
          rw [UInt64.toNat_mul]
          exact Nat.mod_eq_of_lt fits
        rw [ih grown, product, List.length_cons, Nat.pow_succ, Nat.mul_assoc, Nat.mul_comm 10]
      · cases grown

theorem decompressAmount_eq_some {x amount : UInt64} (positive : x ≠ 0)
    (decompressed : decompressAmount x = some amount) :
    amount.toNat = mantissa (x.toNat - 1) * 10 ^ ((x.toNat - 1) % 10) := by
  have nonzero : 0 < x.toNat := by
    rcases Nat.eq_zero_or_pos x.toNat with zero | positive'
    · exact absurd (UInt64.toNat_inj.mp zero) positive
    · exact positive'
  have bound := x.toNat_lt
  have code : (x - 1).toNat = x.toNat - 1 :=
    UInt64.toNat_sub_of_le _ _ (UInt64.le_iff_toNat_le.mpr nonzero)
  have nine : ((x - 1) % 10 < 9) ↔ (x.toNat - 1) % 10 < 9 := by
    rw [UInt64.lt_iff_toNat_lt, UInt64.toNat_mod, code]
    rfl
  rw [decompressAmount, if_neg positive] at decompressed
  dsimp only at decompressed
  rw [toNat_foldlM_checkedMul decompressed, List.length_range, UInt64.toNat_mod, code]
  congr 1
  rw [mantissa]
  by_cases few : (x.toNat - 1) % 10 < 9
  · rw [if_pos (nine.mpr few), if_pos few]
    simp only [UInt64.toNat_add, UInt64.toNat_mul, UInt64.toNat_div, UInt64.toNat_mod, code,
      UInt64.reduceToNat]
    omega
  · rw [if_neg (fun less => few (nine.mp less)), if_neg few]
    simp only [UInt64.toNat_add, UInt64.toNat_div, code, UInt64.reduceToNat]
    omega

theorem mantissa_pos (code : Nat) : 0 < mantissa code := by
  rw [mantissa]
  split <;> omega

/-- Fewer than nine dropped zeros are all of them. -/
theorem mantissa_mod_ten {code : Nat} (few : code % 10 < 9) : mantissa code % 10 ≠ 0 := by
  rw [mantissa, if_pos few]
  omega

theorem code_of_mantissa {first second : Nat} (exponents : first % 10 = second % 10)
    (same : mantissa first = mantissa second) : first = second := by
  rw [mantissa, mantissa, exponents] at same
  split at same <;> omega

theorem exponent_le_of_amount {first second : Nat}
    (same : mantissa first * 10 ^ (first % 10) = mantissa second * 10 ^ (second % 10)) :
    second % 10 ≤ first % 10 := by
  by_contra more
  rw [not_le] at more
  obtain ⟨extra, sum⟩ := Nat.exists_eq_add_of_lt more
  have factor : mantissa first = mantissa second * 10 ^ extra * 10 := by
    rw [sum, Nat.pow_succ, Nat.pow_add] at same
    refine Nat.eq_of_mul_eq_mul_right (by positivity : 0 < 10 ^ (first % 10)) ?_
    rw [same]
    ring
  refine mantissa_mod_ten (by omega : first % 10 < 9) ?_
  rw [factor]
  omega

theorem decompressAmount_injective {first second amount : UInt64}
    (firstCode : decompressAmount first = some amount)
    (secondCode : decompressAmount second = some amount) : first = second := by
  have zeroCode : ∀ {x : UInt64}, decompressAmount x = some 0 → x = 0 := by
    intro x decompressed
    by_contra positive
    have digits := decompressAmount_eq_some positive decompressed
    have := mantissa_pos (x.toNat - 1)
    have : 0 < mantissa (x.toNat - 1) * 10 ^ ((x.toNat - 1) % 10) := by positivity
    rw [← digits] at this
    exact absurd this (by decide)
  by_cases zero : first = 0
  · subst zero
    obtain rfl : 0 = amount := Option.some.inj firstCode
    exact (zeroCode secondCode).symm
  · by_cases zero' : second = 0
    · subst zero'
      obtain rfl : 0 = amount := Option.some.inj secondCode
      exact absurd (zeroCode firstCode) zero
    · have same := (decompressAmount_eq_some zero firstCode).symm.trans
        (decompressAmount_eq_some zero' secondCode)
      have exponents : (first.toNat - 1) % 10 = (second.toNat - 1) % 10 :=
        le_antisymm (exponent_le_of_amount same.symm) (exponent_le_of_amount same)
      rw [exponents] at same
      have codes := code_of_mantissa exponents
        (Nat.eq_of_mul_eq_mul_right (by positivity) same)
      have positive : first.toNat ≠ 0 := fun absurd => zero (UInt64.toNat_inj.mp absurd)
      have positive' : second.toNat ≠ 0 := fun absurd => zero' (UInt64.toNat_inj.mp absurd)
      exact UInt64.toNat_inj.mp (by omega)

/-! ## Outputs of the chainstate -/

inductive SnapshotError where
  | blockParse (reason : String)
  deriving DecidableEq

structure RawUtxo where
  txid : Hash
  vout : UInt32
  valueBytes : Bytes

structure ParsedUtxo where
  txid : Hash
  vout : UInt32
  height : UInt32
  isCoinbase : Bool
  amount : UInt64
  script : Bytes
  address : Option String
  deriving DecidableEq

def scriptAddressPrefix : UInt8 := 28
def legacyAddressPrefix : UInt8 := 70

/-- `Address::from_hash160`, as text. -/
def addressOfHash (crypto : Crypto) (hash : Bytes) (version : UInt8) : Option String :=
  if sized : hash.length = 20 then some (crypto.addressString ⟨hash, sized⟩ version) else none

def decodeScript (scriptType : UInt64) (data : Bytes) : Except SnapshotError Bytes :=
  if scriptType = 0 then
    if data.length < 20 then .error (.blockParse "P2PKH script too short")
    else .ok ([0x76, 0xa9, 0x14] ++ data.take 20 ++ [0x88, 0xac])
  else if scriptType = 1 then
    if data.length < 20 then .error (.blockParse "P2SH script too short")
    else .ok ([0xa9, 0x14] ++ data.take 20 ++ [0x87])
  else if scriptType = 2 ∨ scriptType = 3 then
    if data.length < 32 then .error (.blockParse "P2PK compressed script too short")
    else .ok ([0x21, scriptType.toUInt8] ++ data.take 32 ++ [0xac])
  else if scriptType = 4 ∨ scriptType = 5 then
    if data.length < 64 then .error (.blockParse "P2PK uncompressed script too short")
    else .ok ([0x41, if scriptType = 4 then 0x04 else 0x06] ++ data.take 64 ++ [0xac])
  else
    let length := (scriptType - 6).toNat
    if data.length < length then
      .error (.blockParse ("Raw script too short: need " ++ toString length ++ ", have " ++
        toString data.length))
    else .ok (data.take length)

def scriptToAddress (crypto : Crypto) (script : Bytes) : Option String :=
  if script.length = 25 ∧ script.take 3 = [0x76, 0xa9, 0x14] ∧ script.drop 23 = [0x88, 0xac] then
    addressOfHash crypto ((script.drop 3).take 20) legacyAddressPrefix
  else if script.length = 23 ∧ script.take 2 = [0xa9, 0x14] ∧ script.drop 22 = [0x87] then
    addressOfHash crypto ((script.drop 2).take 20) scriptAddressPrefix
  else none

def readVarint (reason : String) (data : Bytes) : Except SnapshotError (UInt64 × Nat) :=
  match decodeVarintBase128 data with
  | some read => .ok read
  | none => .error (.blockParse reason)

def readAmount (code : UInt64) : Except SnapshotError UInt64 :=
  match decompressAmount code with
  | some amount => .ok amount
  | none => .error (.blockParse ("compressed amount " ++ toString code ++ " overflows u64"))

def parseUtxoValue (crypto : Crypto) (raw : RawUtxo) : Except SnapshotError ParsedUtxo := do
  let data := raw.valueBytes
  let (heightCoinbase, n) ← readVarint "Failed to read height/coinbase varint" data
  let (compressedAmount, m) ← readVarint "Failed to read amount varint" (data.drop n)
  let amount ← readAmount compressedAmount
  let (scriptType, k) ← readVarint "Failed to read script type varint" (data.drop (n + m))
  let script ← decodeScript scriptType (data.drop (n + m + k))
  pure {
    txid := raw.txid
    vout := raw.vout
    height := (heightCoinbase >>> 1).toUInt32
    isCoinbase := heightCoinbase &&& 1 != 0
    amount := amount
    script := script
    address := scriptToAddress crypto script }

/-- The bytes after the first integer of an output, where its amount is written. -/
def RawUtxo.amountBytes (raw : RawUtxo) : Bytes :=
  raw.valueBytes.drop ((raw.valueBytes.takeWhile fun byte => Continues byte).length + 1)

/-- The credited amount is the one whose code stands in the output. -/
def CreditedExactly (raw : RawUtxo) (amount : UInt64) : Prop :=
  ∃ (code : UInt64) (n : Nat), n ≤ raw.amountBytes.length ∧
    IsVarint (raw.amountBytes.take n) code.toNat ∧ decompressAmount code = some amount

theorem readVarint_eq_ok {reason : String} {data : Bytes} {read : UInt64 × Nat}
    (given : readVarint reason data = .ok read) : decodeVarintBase128 data = some read := by
  rw [readVarint] at given
  split at given
  · rename_i found
    rw [found, Except.ok.inj given]
  · cases given

theorem readAmount_eq_ok {code amount : UInt64} (given : readAmount code = .ok amount) :
    decompressAmount code = some amount := by
  rw [readAmount] at given
  split at given
  · rename_i found
    rw [found, Except.ok.inj given]
  · cases given

theorem consumed_of_decode {data : Bytes} {v : UInt64} {n : Nat}
    (decoded : decodeVarintBase128 data = some (v, n)) :
    n = (data.takeWhile fun byte => Continues byte).length + 1 := by
  rcases truncated_or_complete data with truncated | ⟨continued, last, rest, rfl, all, ends⟩
  · rw [decodeVarintBase128, decodeVarintFrom_truncated truncated] at decoded
    cases decoded
  · obtain ⟨decodes, refuses⟩ := @decodeVarintFrom_complete continued last rest all ends 0 0 0
      rfl (Nat.zero_le _)
    have ended : (continued ++ last :: rest).takeWhile (fun byte => Continues byte) =
        continued := by
      rw [List.takeWhile_append_of_pos (by simpa using all),
        List.takeWhile_cons_of_neg (by simpa using ends), List.append_nil]
    rw [decodeVarintBase128] at decoded
    by_cases survives : 0 + continued.length ≤ 10 ∧ NeverZero 0 continued
    · obtain ⟨w, given, _⟩ := decodes survives.1 survives.2
      rw [given, Option.some.injEq, Prod.mk.injEq] at decoded
      rw [ended, ← decoded.2]
      omega
    · rw [refuses survives] at decoded
      cases decoded

theorem parseUtxoValue_eq_ok {crypto : Crypto} {raw : RawUtxo} {parsed : ParsedUtxo}
    (accepted : parseUtxoValue crypto raw = .ok parsed) :
    ∃ code n, decodeVarintBase128 raw.amountBytes = some (code, n) ∧
      decompressAmount code = some parsed.amount := by
  obtain ⟨⟨flags, n⟩, first, accepted⟩ := Checked.bind_eq_ok.mp accepted
  obtain ⟨⟨code, m⟩, second, accepted⟩ := Checked.bind_eq_ok.mp accepted
  obtain ⟨amount, credited, accepted⟩ := Checked.bind_eq_ok.mp accepted
  obtain ⟨⟨scriptType, k⟩, _, accepted⟩ := Checked.bind_eq_ok.mp accepted
  obtain ⟨script, _, accepted⟩ := Checked.bind_eq_ok.mp accepted
  obtain rfl := Except.ok.inj accepted
  have consumed := consumed_of_decode (readVarint_eq_ok first)
  refine ⟨code, m, ?_, readAmount_eq_ok credited⟩
  rw [RawUtxo.amountBytes, ← consumed]
  exact readVarint_eq_ok second

theorem creditedExactly_iff {crypto : Crypto} {raw : RawUtxo} {parsed : ParsedUtxo}
    (accepted : parseUtxoValue crypto raw = .ok parsed) :
    CreditedExactly raw parsed.amount ↔ ¬ Wraps raw.amountBytes := by
  obtain ⟨code, n, decoded, decompressed⟩ := parseUtxoValue_eq_ok accepted
  constructor
  · rintro ⟨other, length, fits, complete, _⟩
      ⟨continued, last, rest, whole, all, ends, _, large, _⟩
    rw [whole] at fits complete
    have same := ((isVarint_take_iff all ends length other.toNat).mp ⟨fits, complete⟩).2
    have := other.toNat_lt
    omega
  · intro fits
    obtain ⟨within, complete⟩ := ((decodesExactly_iff _).mpr fits code n).mp decoded
    exact ⟨code, n, within, complete, decompressed⟩

/-- Integers are decoded exactly unless they wrap, amounts have one code, and so the amount of
an output is credited exactly unless its code wraps. -/
theorem legacy_amounts_exact_iff (crypto : Crypto) :
    (∀ data, DecodesExactly data ↔ ¬ Wraps data) ∧
    (∀ first second amount : UInt64, decompressAmount first = some amount →
      decompressAmount second = some amount → first = second) ∧
    ∀ raw parsed, parseUtxoValue crypto raw = .ok parsed →
      (CreditedExactly raw parsed.amount ↔ ¬ Wraps raw.amountBytes) :=
  ⟨decodesExactly_iff, fun _ _ _ => decompressAmount_injective,
    fun _ _ => creditedExactly_iff⟩

def wrappedCode : Bytes :=
  [0x80, 0xfe, 0xfe, 0xfe, 0xfe, 0xfe, 0xfe, 0xfe, 0xff, 0x0a]

def wrappedOutput : RawUtxo :=
  ⟨zeroHash, 0, 0x00 :: wrappedCode ++ 0x00 :: List.replicate 20 0x11⟩

/-- The code is read as ten, and the output is credited with ten coins. -/
theorem wrapped_code_credited :
    IsVarint wrappedCode (2 ^ 64 + 10) ∧ decodeVarintBase128 wrappedCode = some (10, 10) ∧
      (parseUtxoValue Regtest.crypto wrappedOutput).map ParsedUtxo.amount = .ok 1000000000 := by
  refine ⟨⟨wrappedCode.take 9, 0x0a, ?_, ?_, ?_, ?_⟩, ?_, ?_⟩ <;> decide +kernel

end Vtorrent
