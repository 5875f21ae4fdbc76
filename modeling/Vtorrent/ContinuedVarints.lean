import Mathlib

/-!
# Integers with continuation bytes

An integer is written in base 128, most significant digit first.  Every byte but the last has
its high bit set and adds one, so that no integer is written in two ways.
-/

namespace ContinuedVarints

/-- The high bit of a byte says that the integer goes on. -/
def Continues (byte : UInt8) : Prop := 128 ≤ byte.toNat

instance (byte : UInt8) : Decidable (Continues byte) :=
  inferInstanceAs (Decidable (128 ≤ byte.toNat))

def accumulate (start : Nat) (continued : List UInt8) : Nat :=
  continued.foldl (fun number byte => 128 * number + byte.toNat % 128 + 1) start

/-- The integer of some continuation bytes and a last byte. -/
def value (continued : List UInt8) (last : UInt8) : Nat :=
  128 * accumulate 0 continued + last.toNat

/-- The bytes are a complete integer with the given value. -/
def IsVarint (bytes : List UInt8) (number : Nat) : Prop :=
  ∃ continued last, bytes = continued ++ [last] ∧ (∀ byte ∈ continued, Continues byte) ∧
    ¬ Continues last ∧ number = value continued last

@[simp]
theorem accumulate_cons (start : Nat) (byte : UInt8) (continued : List UInt8) :
    accumulate start (byte :: continued) =
      accumulate (128 * start + byte.toNat % 128 + 1) continued := rfl

theorem mul_pow_le_accumulate (start : Nat) (continued : List UInt8) :
    start * 128 ^ continued.length ≤ accumulate start continued := by
  induction continued generalizing start with
  | nil => simp [accumulate]
  | cons byte continued ih =>
      rw [accumulate_cons, List.length_cons, Nat.pow_succ, Nat.mul_comm (128 ^ _), ← Nat.mul_assoc]
      refine le_trans ?_ (ih _)
      gcongr
      omega

/-- The number only grows, and it is positive after the first byte. -/
theorem accumulate_prefix_le {start : Nat} {part continued : List UInt8}
    (first : part <+: continued) : accumulate start part ≤ accumulate start continued := by
  obtain ⟨rest, rfl⟩ := first
  rw [accumulate, accumulate, List.foldl_append]
  exact le_trans (Nat.le_mul_of_pos_right _ (by positivity)) (mul_pow_le_accumulate _ rest)

theorem accumulate_pos {start : Nat} {continued : List UInt8} (nonempty : continued ≠ []) :
    0 < accumulate start continued := by
  obtain ⟨byte, continued, rfl⟩ := List.exists_cons_of_ne_nil nonempty
  rw [accumulate_cons]
  exact lt_of_lt_of_le (by positivity) (mul_pow_le_accumulate _ continued)

theorem pow_le_value {continued : List UInt8} (nonempty : continued ≠ []) (last : UInt8) :
    128 ^ continued.length ≤ value continued last := by
  obtain ⟨byte, continued, rfl⟩ := List.exists_cons_of_ne_nil nonempty
  have bound := mul_pow_le_accumulate (128 * 0 + byte.toNat % 128 + 1) continued
  have least : 1 * 128 ^ continued.length ≤
      (128 * 0 + byte.toNat % 128 + 1) * 128 ^ continued.length := by
    gcongr
    omega
  rw [value, accumulate_cons, List.length_cons, Nat.pow_succ]
  omega

/-- Every byte string is cut off within an integer or begins with a complete one. -/
theorem truncated_or_complete (bytes : List UInt8) :
    (∀ byte ∈ bytes, Continues byte) ∨
      ∃ continued last rest, bytes = continued ++ last :: rest ∧
        (∀ byte ∈ continued, Continues byte) ∧ ¬ Continues last := by
  induction bytes with
  | nil => exact .inl (by simp)
  | cons byte bytes ih =>
      by_cases more : Continues byte
      · rcases ih with truncated | ⟨continued, last, rest, rfl, all, ends⟩
        · exact .inl (by simpa [more] using truncated)
        · exact .inr ⟨byte :: continued, last, rest, rfl, by simpa [more] using all, ends⟩
      · exact .inr ⟨[], byte, bytes, rfl, by simp, more⟩

theorem not_isVarint_of_truncated {bytes : List UInt8}
    (truncated : ∀ byte ∈ bytes, Continues byte) (length number : Nat) :
    ¬ IsVarint (bytes.take length) number := by
  rintro ⟨continued, last, cut, _, ends, _⟩
  have member : last ∈ bytes.take length := by
    rw [cut]
    simp
  exact ends (truncated last (List.mem_of_mem_take member))

theorem continued_unique {continued others rest more : List UInt8} {last final : UInt8}
    (all : ∀ byte ∈ continued, Continues byte) (ends : ¬ Continues last)
    (allOthers : ∀ byte ∈ others, Continues byte) (finalEnds : ¬ Continues final)
    (whole : others ++ final :: more = continued ++ last :: rest) :
    others = continued ∧ final = last := by
  induction others generalizing continued with
  | nil =>
      cases continued with
      | nil => exact ⟨rfl, (List.cons.inj whole).1⟩
      | cons byte continued =>
          obtain rfl := (List.cons.inj whole).1
          exact absurd (all _ List.mem_cons_self) finalEnds
  | cons other others ih =>
      cases continued with
      | nil =>
          obtain rfl := (List.cons.inj whole).1
          exact absurd (allOthers _ List.mem_cons_self) ends
      | cons byte continued =>
          obtain ⟨rfl, inner⟩ := List.cons.inj whole
          obtain ⟨rfl, same⟩ := ih (fun byte member => all byte (List.mem_cons_of_mem _ member))
            (fun byte member => allOthers byte (List.mem_cons_of_mem _ member)) inner
          exact ⟨rfl, same⟩

/-- The first complete integer of a byte string is the only one. -/
theorem isVarint_take_iff {continued rest : List UInt8} {last : UInt8}
    (all : ∀ byte ∈ continued, Continues byte) (ends : ¬ Continues last)
    (length number : Nat) :
    (length ≤ (continued ++ last :: rest).length ∧
        IsVarint ((continued ++ last :: rest).take length) number) ↔
      length = continued.length + 1 ∧ number = value continued last := by
  constructor
  · rintro ⟨fits, others, final, cut, allOthers, finalEnds, same⟩
    have count : length = others.length + 1 := by
      have := congrArg List.length cut
      rw [List.length_take] at this
      simp only [List.length_append, List.length_singleton] at this fits
      omega
    obtain ⟨more, whole⟩ : others ++ [final] <+: continued ++ last :: rest :=
      cut ▸ List.take_prefix _ _
    rw [List.append_assoc, List.singleton_append] at whole
    obtain ⟨rfl, rfl⟩ := continued_unique all ends allOthers finalEnds whole
    exact ⟨count, same⟩
  · rintro ⟨rfl, rfl⟩
    refine ⟨by simp, continued, last, ?_, all, ends, rfl⟩
    rw [List.take_append]
    simp

end ContinuedVarints
