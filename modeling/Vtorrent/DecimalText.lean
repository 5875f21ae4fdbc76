import Mathlib

/-!
# Decimal numbers as text

Numbers of 64 bits are printed without leading zeros and read back with an optional plus sign.
Reading refuses what is not a digit and what does not fit.  A text is cut at the first
occurrence of a separator, if there is one.
-/

namespace DecimalText

/-- The white space that is trimmed at the ends of a text. -/
def isWhitespace (symbol : Char) : Bool :=
  let code := symbol.toNat
  (9 ≤ code && code ≤ 13) || code == 0x20 || code == 0x85 || code == 0xa0 || code == 0x1680 ||
    (0x2000 ≤ code && code ≤ 0x200a) || code == 0x2028 || code == 0x2029 || code == 0x202f ||
    code == 0x205f || code == 0x3000

def trim (text : List Char) : List Char :=
  (text.dropWhile isWhitespace).rdropWhile isWhitespace

/-- `u64::to_string`. -/
def printU64 (number : UInt64) : List Char := Nat.toDigits 10 number.toNat

/-- `str::parse::<u64>`. -/
def parseU64 (text : List Char) : Option UInt64 :=
  let digits := if text.head? = some '+' then text.tail else text
  if digits = [] ∨ ¬ digits.all Char.isDigit then none
  else
    let number := Nat.ofDigitChars 10 digits 0
    if number < 2 ^ 64 then some (UInt64.ofNat number) else none

theorem isDigit_of_mem_toDigits {symbol : Char} {number : Nat}
    (member : symbol ∈ Nat.toDigits 10 number) : symbol.isDigit = true :=
  Nat.isDigit_of_mem_toDigits (by decide) (by decide) member

theorem not_mem_toDigits {symbol : Char} (other : symbol.isDigit = false) (number : Nat) :
    symbol ∉ Nat.toDigits 10 number := by
  intro member
  simp [isDigit_of_mem_toDigits member] at other

theorem parseU64_digits {digits : List Char} (nonempty : digits ≠ [])
    (all : ∀ symbol ∈ digits, symbol.isDigit = true)
    (fits : Nat.ofDigitChars 10 digits 0 < 2 ^ 64) :
    parseU64 digits = some (UInt64.ofNat (Nat.ofDigitChars 10 digits 0)) := by
  have unsigned : digits.head? ≠ some '+' := by
    intro plus
    have digit := all '+' (List.mem_of_mem_head? plus)
    exact absurd digit (by decide)
  have valid : ¬ (digits = [] ∨ ¬ digits.all Char.isDigit) := by
    simpa [nonempty] using all
  rw [parseU64]
  dsimp only
  rw [if_neg unsigned, if_neg valid, if_pos fits]

theorem parseU64_printU64 (number : UInt64) : parseU64 (printU64 number) = some number := by
  have value : Nat.ofDigitChars 10 (printU64 number) 0 = number.toNat :=
    Nat.ofDigitChars_toDigits (by decide) (by decide)
  have nonempty : printU64 number ≠ [] := Nat.toDigits_ne_nil
  have all : ∀ symbol ∈ printU64 number, symbol.isDigit = true :=
    fun _ member => isDigit_of_mem_toDigits member
  rw [parseU64_digits nonempty all (value ▸ number.toNat_lt), value, UInt64.ofNat_toNat]

theorem trim_eq_self {text : List Char}
    (visible : ∀ symbol ∈ text, isWhitespace symbol = false) : trim text = text := by
  have front : text.dropWhile isWhitespace = text := by
    cases text with
    | nil => rfl
    | cons symbol text => simp [visible symbol List.mem_cons_self]
  rw [trim, front]
  refine List.rdropWhile_eq_self_iff.mpr fun nonempty => ?_
  simp [visible _ (List.getLast_mem nonempty)]

theorem isWhitespace_of_isDigit {symbol : Char} (digit : symbol.isDigit = true) :
    isWhitespace symbol = false := by
  simp only [Char.isDigit, ge_iff_le, Bool.and_eq_true, decide_eq_true_eq] at digit
  have low : 48 ≤ symbol.toNat := digit.1
  have high : symbol.toNat ≤ 57 := digit.2
  simp only [isWhitespace, Bool.or_eq_false_iff, Bool.and_eq_false_iff, decide_eq_false_iff_not,
    beq_eq_false_iff_ne]
  omega

/-! ## Splitting a text at the first separator -/

section Splits

variable {α : Type*} [DecidableEq α]

/-- What stands before and after the first separator. -/
def splitOnce (mark : α) : List α → Option (List α × List α)
  | [] => none
  | symbol :: rest =>
      if symbol = mark then some ([], rest)
      else (splitOnce mark rest).map fun parts => (symbol :: parts.1, parts.2)

theorem splitOnce_append {mark : α} {before : List α} (absent : mark ∉ before)
    (after : List α) : splitOnce mark (before ++ mark :: after) = some (before, after) := by
  induction before with
  | nil => simp [splitOnce]
  | cons symbol before ih =>
      simp only [List.mem_cons, not_or] at absent
      rw [List.cons_append, splitOnce, if_neg (Ne.symm absent.1), ih absent.2]
      rfl

theorem splitOnce_eq_none {mark : α} {text : List α} (absent : mark ∉ text) :
    splitOnce mark text = none := by
  induction text with
  | nil => rfl
  | cons symbol text ih =>
      simp only [List.mem_cons, not_or] at absent
      rw [splitOnce, if_neg (Ne.symm absent.1), ih absent.2]
      rfl

end Splits

end DecimalText
