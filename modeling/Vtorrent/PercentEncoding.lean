import Mathlib

/-!
# Percent encoding

Bytes that are not plain are written as a percent sign and two hexadecimal digits.  Decoding
reads such triples and leaves everything else as it is.
-/

namespace PercentEncoding

def hexDigit (digit : Nat) : UInt8 :=
  if digit < 10 then UInt8.ofNat (48 + digit) else UInt8.ofNat (55 + digit)

/-- The value of a hexadecimal digit of either case. -/
def hexValue (byte : UInt8) : Option Nat :=
  if 48 ≤ byte ∧ byte ≤ 57 then some (byte.toNat - 48)
  else if 65 ≤ byte ∧ byte ≤ 70 then some (byte.toNat - 55)
  else if 97 ≤ byte ∧ byte ≤ 102 then some (byte.toNat - 87)
  else none

def encodeByte (plain : UInt8 → Bool) (byte : UInt8) : List UInt8 :=
  if plain byte then [byte] else [37, hexDigit (byte.toNat / 16), hexDigit (byte.toNat % 16)]

def encode (plain : UInt8 → Bool) (bytes : List UInt8) : List UInt8 :=
  bytes.flatMap (encodeByte plain)

def triple (first second third : UInt8) : Option UInt8 :=
  if first = 37 then do
    let high ← hexValue second
    let low ← hexValue third
    pure (UInt8.ofNat (high * 16 + low))
  else none

def decode : List UInt8 → List UInt8
  | first :: second :: third :: rest =>
      match triple first second third with
      | some byte => byte :: decode rest
      | none => first :: decode (second :: third :: rest)
  | bytes => bytes

variable {plain : UInt8 → Bool}

theorem hexValue_hexDigit : ∀ digit < 16, hexValue (hexDigit digit) = some digit := by
  decide

theorem triple_hexDigits (byte : UInt8) :
    triple 37 (hexDigit (byte.toNat / 16)) (hexDigit (byte.toNat % 16)) = some byte := by
  have small := byte.toNat_lt
  rw [triple, if_pos rfl, hexValue_hexDigit _ (by omega), hexValue_hexDigit _ (by omega)]
  change some (UInt8.ofNat (byte.toNat / 16 * 16 + byte.toNat % 16)) = some byte
  rw [Nat.div_add_mod', UInt8.ofNat_toNat]

theorem decode_cons_of_ne {byte : UInt8} (other : byte ≠ 37) (rest : List UInt8) :
    decode (byte :: rest) = byte :: decode rest := by
  match rest with
  | [] => rfl
  | [_] => rfl
  | second :: third :: rest => rw [decode, triple, if_neg other]

theorem decode_encodeByte (escaped : plain 37 = false) (byte : UInt8) (rest : List UInt8) :
    decode (encodeByte plain byte ++ rest) = byte :: decode rest := by
  rw [encodeByte]
  split
  · rename_i kept
    have other : byte ≠ 37 := by
      rintro rfl
      simp [escaped] at kept
    exact decode_cons_of_ne other rest
  · simp only [List.cons_append, List.nil_append]
    rw [decode, triple_hexDigits]

theorem decode_encode (escaped : plain 37 = false) (bytes : List UInt8) :
    decode (encode plain bytes) = bytes := by
  induction bytes with
  | nil => rfl
  | cons byte bytes ih =>
      rw [encode, List.flatMap_cons, decode_encodeByte escaped, ← encode, ih]

theorem decode_eq_self {bytes : List UInt8} (absent : 37 ∉ bytes) : decode bytes = bytes := by
  induction bytes with
  | nil => rfl
  | cons byte bytes ih =>
      simp only [List.mem_cons, not_or] at absent
      rw [decode_cons_of_ne (Ne.symm absent.1), ih absent.2]

theorem of_mem_encode {byte : UInt8} {bytes : List UInt8} (member : byte ∈ encode plain bytes) :
    plain byte = true ∨ byte = 37 ∨ ∃ digit < 16, byte = hexDigit digit := by
  obtain ⟨source, _, member⟩ := List.mem_flatMap.mp member
  have small := source.toNat_lt
  rw [encodeByte] at member
  split at member
  · rename_i kept
    rw [List.mem_singleton.mp member]
    exact .inl kept
  · simp only [List.mem_cons, List.not_mem_nil, or_false] at member
    rcases member with rfl | high | low
    · exact .inr (.inl rfl)
    · exact .inr (.inr ⟨_, by omega, high⟩)
    · exact .inr (.inr ⟨_, by omega, low⟩)

end PercentEncoding
