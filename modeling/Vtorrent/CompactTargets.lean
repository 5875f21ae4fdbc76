import Vtorrent.Primitives

/-!
# Compact targets of the light client

A header names its proof-of-work target in a compact form: one byte of exponent and three
bytes of mantissa.  The light client expands the target to bytes and compares it with the
header's hash, and it counts the work of a header as the quotient of `2 ^ 256` and the
target.
-/

namespace Vtorrent

namespace Spv

/-- `bits >> 24`. -/
def exponent (bits : UInt32) : Nat := bits.toNat / 2 ^ 24

/-- `bits & 0x00ff_ffff`. -/
def mantissa (bits : UInt32) : Nat := bits.toNat % 2 ^ 24

/-- `header_work`, in the range of `u128`. -/
def headerWork (bits : UInt32) : Nat :=
  if mantissa bits = 0 then 0
  else
    let shift := 280 - 8 * exponent bits
    if shift ≥ 128 then 2 ^ 128 - 1 else 2 ^ shift / mantissa bits

/-- Place the mantissa bytes from an index on.  A byte other than zero that would land
behind the last index makes the target overflow. -/
def placeMantissa : Nat → Bytes → Bytes → Option Bytes
  | _, [], target => some target
  | index, byte :: bytes, target =>
      if byte = 0 then placeMantissa (index + 1) bytes target
      else if index ≥ 32 then none
      else placeMantissa (index + 1) bytes (target.set index byte)

/-- The little-endian bytes of the target, unless it is zero or overflows. -/
def expandTarget (bits : UInt32) : Option Bytes :=
  if exponent bits = 0 ∨ mantissa bits = 0 then none
  else if exponent bits ≤ 3 then
    let value := mantissa bits / 2 ^ (8 * (3 - exponent bits))
    if value = 0 then none else some (leBytes 3 value ++ List.replicate 29 0)
  else placeMantissa (exponent bits - 3) (leBytes 3 (mantissa bits)) (List.replicate 32 0)

/-- Compare two numbers from their most significant bytes down. -/
def scanDown : Bytes → Bytes → Bool
  | first :: others, second :: rest =>
      if first < second then true
      else if second < first then false
      else scanDown others rest
  | _, _ => true

/-- `hash_meets_target`. -/
def hashMeetsTarget (hash : Hash) (bits : UInt32) : Bool :=
  match expandTarget bits with
  | none => false
  | some target => scanDown hash.toList.reverse target.reverse

/-- The number a compact target stands for, rounded down. -/
def compactTarget (bits : UInt32) : Nat := mantissa bits * 256 ^ exponent bits / 256 ^ 3

/-- The compact target is neither zero nor too large for 256 bits. -/
def Admissible (bits : UInt32) : Prop := 0 < compactTarget bits ∧ compactTarget bits < 2 ^ 256

instance (bits : UInt32) : Decidable (Admissible bits) := inferInstanceAs (Decidable (_ ∧ _))

theorem mantissa_lt (bits : UInt32) : mantissa bits < 256 ^ 3 :=
  Nat.mod_lt _ (by decide)

theorem scanDown_reverse {first second : Bytes} (same : first.length = second.length) :
    scanDown first.reverse second.reverse = true ↔ leValue first ≤ leValue second := by
  induction first using List.reverseRecOn generalizing second with
  | nil =>
      obtain rfl : second = [] := List.eq_nil_of_length_eq_zero same.symm
      simp [scanDown]
  | append_singleton first top ih =>
      obtain ⟨second, top', rfl⟩ : ∃ front last, second = front ++ [last] := by
        refine ⟨second.dropLast, second.getLast ?_, (List.dropLast_append_getLast _).symm⟩
        rintro rfl
        simp at same
      have lengths : first.length = second.length := by simpa using same
      have low := leValue_lt first
      have low' := leValue_lt second
      rw [← lengths] at low'
      rw [List.reverse_append, List.reverse_append, leValue_append, leValue_append, ← lengths]
      change scanDown (top :: first.reverse) (top' :: second.reverse) = true ↔
        _ + _ * (top.toNat + 256 * 0) ≤ _ + _ * (top'.toNat + 256 * 0)
      simp only [scanDown, mul_zero, add_zero, UInt8.lt_iff_toNat_lt]
      split
      · rename_i less
        have weight := Nat.mul_le_mul_left (256 ^ first.length) (Nat.succ_le_of_lt less)
        rw [Nat.succ_eq_add_one, mul_add, mul_one] at weight
        simp only [true_iff]
        omega
      · split
        · rename_i notLess more
          have weight := Nat.mul_le_mul_left (256 ^ first.length) (Nat.succ_le_of_lt more)
          rw [Nat.succ_eq_add_one, mul_add, mul_one] at weight
          simp only [Bool.false_eq_true, false_iff]
          omega
        · rename_i notLess notMore
          have tops : top.toNat = top'.toNat := by omega
          rw [ih lengths, tops]
          omega

/-- The mantissa is placed unless it would reach behind the last byte. -/
theorem placeMantissa_cases {bytes target : Bytes} {index : Nat} (length : target.length = 32)
    (vacant : ∀ i, index ≤ i → i < 32 → target[i]? = some 0) :
    (∃ placed, placeMantissa index bytes target = some placed ∧ placed.length = 32 ∧
        leValue placed = leValue target + 256 ^ index * leValue bytes) ∨
      placeMantissa index bytes target = none ∧ 256 ^ 32 ≤ 256 ^ index * leValue bytes := by
  induction bytes generalizing index target with
  | nil => exact .inl ⟨target, rfl, length, by simp [leValue]⟩
  | cons byte bytes ih =>
      have value : 256 ^ index * leValue (byte :: bytes) =
          256 ^ index * byte.toNat + 256 ^ (index + 1) * leValue bytes := by
        rw [leValue, pow_succ]
        ring
      rw [placeMantissa, value]
      split
      · rename_i zero
        rw [zero, UInt8.toNat_zero, mul_zero, zero_add]
        exact ih length fun i above below => vacant i (by omega) below
      · rename_i nonzero
        have positive : 1 ≤ byte.toNat := by
          rcases Nat.eq_zero_or_pos byte.toNat with zero | positive
          · exact absurd (UInt8.toNat_inj.mp zero) nonzero
          · exact positive
        split
        · rename_i beyond
          refine .inr ⟨rfl, ?_⟩
          calc 256 ^ 32 ≤ 256 ^ index * 1 := by
                rw [mul_one]
                exact Nat.pow_le_pow_right (by decide) beyond
            _ ≤ 256 ^ index * byte.toNat := Nat.mul_le_mul_left _ positive
            _ ≤ _ := Nat.le_add_right _ _
        · rename_i inside
          have written := leValue_set (vacant index le_rfl (by omega)) byte
          have length' : (target.set index byte).length = 32 := by rw [List.length_set, length]
          have vacant' : ∀ i, index + 1 ≤ i → i < 32 →
              (target.set index byte)[i]? = some 0 := by
            intro i above below
            rw [List.getElem?_set_ne (by omega)]
            exact vacant i (by omega) below
          rcases @ih (target.set index byte) (index + 1) length' vacant' with
            ⟨placed, done, size, total⟩ | ⟨failed, large⟩
          · exact .inl ⟨placed, done, size, by rw [total, written]; ring⟩
          · exact .inr ⟨failed, large.trans (Nat.le_add_left _ _)⟩

theorem compactTarget_of_le {bits : UInt32} (small : exponent bits ≤ 3) :
    compactTarget bits = mantissa bits / 256 ^ (3 - exponent bits) := by
  have split : 256 ^ 3 = 256 ^ (3 - exponent bits) * 256 ^ exponent bits := by
    rw [← pow_add]
    congr 1
    omega
  rw [compactTarget, split, Nat.mul_div_mul_right _ _ (Nat.pow_pos (by decide))]

theorem compactTarget_of_lt {bits : UInt32} (large : 3 < exponent bits) :
    compactTarget bits = mantissa bits * 256 ^ (exponent bits - 3) := by
  have split : 256 ^ exponent bits = 256 ^ (exponent bits - 3) * 256 ^ 3 := by
    rw [← pow_add]
    congr 1
    omega
  rw [compactTarget, split, ← mul_assoc, Nat.mul_div_cancel _ (by decide)]

theorem expandTarget_cases (bits : UInt32) :
    (∃ target, expandTarget bits = some target ∧ target.length = 32 ∧ Admissible bits ∧
        leValue target = compactTarget bits) ∨
      expandTarget bits = none ∧ ¬ Admissible bits := by
  have small := mantissa_lt bits
  rw [expandTarget]
  split
  · rename_i degenerate
    refine .inr ⟨rfl, fun admissible => ?_⟩
    have zero : compactTarget bits = 0 := by
      rcases degenerate with zero | zero
      · rw [compactTarget_of_le (by omega), zero]
        exact Nat.div_eq_of_lt small
      · rw [compactTarget, zero, zero_mul, Nat.zero_div]
    exact absurd zero admissible.1.ne'
  · rename_i proper
    rw [not_or] at proper
    split
    · rename_i short
      have shifted : mantissa bits / 2 ^ (8 * (3 - exponent bits)) = compactTarget bits := by
        rw [compactTarget_of_le short, pow_mul]
        rfl
      have below : compactTarget bits < 256 ^ 3 := by
        rw [compactTarget_of_le short]
        exact (Nat.div_le_self _ _).trans_lt small
      dsimp only
      rw [shifted]
      split
      · rename_i zero
        exact .inr ⟨rfl, fun admissible => admissible.1.ne' zero⟩
      · rename_i nonzero
        refine .inl ⟨_, rfl, by simp, ⟨Nat.pos_of_ne_zero nonzero, ?_⟩, ?_⟩
        · exact below.trans (by decide)
        · rw [leValue_append, leValue_leBytes, Nat.mod_eq_of_lt below, leValue_replicate_zero,
            mul_zero, add_zero]
    · rename_i long
      have value : leValue (leBytes 3 (mantissa bits)) = mantissa bits := by
        rw [leValue_leBytes, Nat.mod_eq_of_lt small]
      have target := compactTarget_of_lt (Nat.lt_of_not_le long)
      rw [mul_comm] at target
      have vacant : ∀ i, exponent bits - 3 ≤ i → i < 32 →
          (List.replicate 32 (0 : UInt8))[i]? = some 0 := by
        intro i _ below
        rw [List.getElem?_replicate, if_pos below]
      rcases @placeMantissa_cases (leBytes 3 (mantissa bits)) _ (exponent bits - 3)
        List.length_replicate vacant with ⟨placed, done, size, total⟩ | ⟨failed, large⟩
      · rw [value, leValue_replicate_zero, zero_add, ← target] at total
        have bound := leValue_lt placed
        rw [size, total] at bound
        refine .inl ⟨placed, done, size, ⟨?_, bound.trans_le (by decide)⟩, total⟩
        rw [target]
        exact Nat.mul_pos (Nat.pow_pos (by decide)) (Nat.pos_of_ne_zero proper.2)
      · rw [value, ← target] at large
        exact .inr ⟨failed, fun admissible => absurd admissible.2
          (Nat.not_lt_of_le (le_trans (by decide) large))⟩

/-- A hash meets the target exactly when the target is admissible and the hash, read as a
little-endian number, does not exceed it. -/
theorem hashMeetsTarget_iff (hash : Hash) (bits : UInt32) :
    hashMeetsTarget hash bits = true ↔
      Admissible bits ∧ leValue hash.toList ≤ compactTarget bits := by
  rw [hashMeetsTarget]
  rcases expandTarget_cases bits with ⟨target, found, size, admissible, value⟩ | ⟨none, not⟩
  · rw [found]
    have lengths : hash.toList.length = target.length := by rw [size, hash.toList_length]
    rw [← value]
    simpa [admissible] using scanDown_reverse lengths
  · simp [none, not]

theorem mantissa_pos {bits : UInt32} (admissible : Admissible bits) : 0 < mantissa bits := by
  rcases Nat.eq_zero_or_pos (mantissa bits) with zero | positive
  · exact absurd admissible.1 (by simp [compactTarget, zero])
  · exact positive

theorem headerWork_of_lt {bits : UInt32} (admissible : Admissible bits)
    (small : exponent bits < 20) : headerWork bits = 2 ^ 128 - 1 := by
  rw [headerWork, if_neg (mantissa_pos admissible).ne', if_pos (by omega)]

/-- From exponent 20 on the work is the quotient of `2 ^ 256` and the target. -/
theorem headerWork_of_le {bits : UInt32} (admissible : Admissible bits)
    (large : 20 ≤ exponent bits) : headerWork bits = 2 ^ 256 / compactTarget bits := by
  have positive := mantissa_pos admissible
  have target := @compactTarget_of_lt bits (by omega)
  have fits : exponent bits - 3 < 32 := by
    have bound : 256 ^ (exponent bits - 3) < 256 ^ 32 := by
      calc 256 ^ (exponent bits - 3) ≤ mantissa bits * 256 ^ (exponent bits - 3) :=
            Nat.le_mul_of_pos_left _ positive
        _ < 256 ^ 32 := by
            rw [← target]
            exact admissible.2.trans_le (by decide)
    exact (Nat.pow_lt_pow_iff_right (by decide)).mp bound
  have split : 2 ^ 256 = 2 ^ (280 - 8 * exponent bits) * 256 ^ (exponent bits - 3) := by
    rw [show 256 = 2 ^ 8 by rfl, ← pow_mul, ← pow_add]
    congr 1
    omega
  rw [headerWork, if_neg positive.ne', if_neg (by omega), target, split,
    Nat.mul_div_mul_right _ _ (Nat.pow_pos (by decide))]

theorem headerWork_lt {bits : UInt32} (admissible : Admissible bits)
    (large : 20 ≤ exponent bits) : headerWork bits < 2 ^ 128 - 1 := by
  rw [headerWork, if_neg (mantissa_pos admissible).ne', if_neg (by omega)]
  calc 2 ^ (280 - 8 * exponent bits) / mantissa bits ≤ 2 ^ (280 - 8 * exponent bits) :=
        Nat.div_le_self _ _
    _ ≤ 2 ^ 120 := Nat.pow_le_pow_right (by decide) (by omega)
    _ < 2 ^ 128 - 1 := by decide

/-- A hash meets a compact target exactly when it should, and of two admissible targets the
smaller one counts at least as much work exactly when its exponent is not the only one of
the two that reaches 20. -/
theorem hashMeetsTarget_and_headerWork (hash : Hash) (bits other : UInt32) :
    (hashMeetsTarget hash bits = true ↔
      (0 < compactTarget bits ∧ compactTarget bits < 2 ^ 256) ∧
        leValue hash.toList ≤ compactTarget bits) ∧
    (Admissible bits → Admissible other → compactTarget bits ≤ compactTarget other →
      (headerWork other ≤ headerWork bits ↔ (20 ≤ exponent bits → 20 ≤ exponent other))) := by
  refine ⟨hashMeetsTarget_iff hash bits, fun admissible admissible' smaller => ?_⟩
  by_cases large : 20 ≤ exponent bits
  · by_cases large' : 20 ≤ exponent other
    · have work : headerWork other ≤ headerWork bits := by
        rw [headerWork_of_le admissible large, headerWork_of_le admissible' large']
        exact Nat.div_le_div_left smaller admissible.1
      simp [work, large']
    · have less := headerWork_lt admissible large
      rw [← headerWork_of_lt admissible' (Nat.lt_of_not_le large')] at less
      simp [large, large', less]
  · have most : headerWork bits = 2 ^ 128 - 1 :=
      headerWork_of_lt admissible (Nat.lt_of_not_le large)
    have work : headerWork other ≤ 2 ^ 128 - 1 := by
      by_cases large' : 20 ≤ exponent other
      · exact (headerWork_lt admissible' large').le
      · exact (headerWork_of_lt admissible' (Nat.lt_of_not_le large')).le
    rw [most]
    exact ⟨fun _ large' => absurd large' large, fun _ => work⟩

/-- The target `2 ^ 136` is smaller than one just below `2 ^ 152` and counts less work,
because its exponent is 20 and the other one's is 19. -/
theorem smaller_target_counts_less :
    Admissible 0x14000001 ∧ Admissible 0x13ffffff ∧
      compactTarget 0x14000001 ≤ compactTarget 0x13ffffff ∧
      headerWork 0x14000001 < headerWork 0x13ffffff := by
  decide

end Spv

end Vtorrent
