import Mathlib

/-!
# Self-delimiting byte encodings

A serializer that writes its fields one after another is injective because each
field can be read back without looking past its end.  This file states that
property for encoders into byte lists and proves it for the shapes used by
fixed-width integers, fixed-size arrays, length-prefixed sequences and options.

Sequence lengths are written as 64-bit integers, so the property is stated for
values whose own encoding is shorter than `2 ^ 64` bytes.
-/

abbrev Bytes := List UInt8

/-- Little-endian bytes of a number, truncated to `width` bytes. -/
def leBytes : Nat → Nat → Bytes
  | 0, _ => []
  | width + 1, number => UInt8.ofNat number :: leBytes width (number / 256)

/-- The number a little-endian byte string stands for. -/
def leValue : Bytes → Nat
  | [] => 0
  | byte :: bytes => byte.toNat + 256 * leValue bytes

@[simp]
theorem leBytes_length (width number : Nat) :
    (leBytes width number).length = width := by
  induction width generalizing number with
  | zero => rfl
  | succ width ih => simp [leBytes, ih]

theorem leValue_leBytes (width number : Nat) :
    leValue (leBytes width number) = number % 256 ^ width := by
  induction width generalizing number with
  | zero => simp [leBytes, leValue, Nat.mod_one]
  | succ width ih =>
      have byteValue : (UInt8.ofNat number).toNat = number % 256 := by
        simp
      rw [leBytes, leValue, ih, byteValue, pow_succ, Nat.mul_comm (256 ^ width),
        Nat.mod_mul]

theorem leValue_append (low high : Bytes) :
    leValue (low ++ high) = leValue low + 256 ^ low.length * leValue high := by
  induction low with
  | nil => simp [leValue]
  | cons byte low ih =>
      rw [List.cons_append, leValue, leValue, ih, List.length_cons, pow_succ]
      ring

theorem leValue_lt (bytes : Bytes) : leValue bytes < 256 ^ bytes.length := by
  induction bytes with
  | nil => exact Nat.one_pos
  | cons byte bytes ih =>
      have small := byte.toNat_lt
      rw [leValue, List.length_cons, pow_succ]
      omega

@[simp]
theorem leValue_replicate_zero (count : Nat) : leValue (List.replicate count 0) = 0 := by
  induction count with
  | zero => rfl
  | succ count ih => simp [List.replicate_succ, leValue, ih]

/-- Writing a byte where there was none adds the byte at its weight. -/
theorem leValue_set {bytes : Bytes} {index : Nat} (vacant : bytes[index]? = some 0)
    (byte : UInt8) :
    leValue (bytes.set index byte) = leValue bytes + 256 ^ index * byte.toNat := by
  induction bytes generalizing index with
  | nil => simp at vacant
  | cons first bytes ih =>
      cases index with
      | zero =>
          obtain rfl : first = 0 := by simpa using vacant
          simp [leValue]
          omega
      | succ index =>
          have rest := ih (by simpa using vacant)
          rw [List.set_cons_succ, leValue, leValue, rest, pow_succ]
          ring

theorem leBytes_injective {width first second : Nat}
    (firstSmall : first < 256 ^ width) (secondSmall : second < 256 ^ width)
    (equal : leBytes width first = leBytes width second) :
    first = second := by
  have values := congrArg leValue equal
  rwa [leValue_leBytes, leValue_leBytes, Nat.mod_eq_of_lt firstSmall,
    Nat.mod_eq_of_lt secondSmall] at values

namespace PrefixCode

/-- An encoder is self-delimiting when an encoded value can be split off the
front of a byte string in at most one way. -/
def SelfDelimiting {α : Type} (encode : α → Bytes) : Prop :=
  ∀ first second firstRest secondRest,
    (encode first).length < 2 ^ 64 → (encode second).length < 2 ^ 64 →
    encode first ++ firstRest = encode second ++ secondRest →
      first = second ∧ firstRest = secondRest

variable {α β γ : Type}

theorem SelfDelimiting.injective {encode : α → Bytes}
    (delimiting : SelfDelimiting encode) {first second : α}
    (small : (encode first).length < 2 ^ 64)
    (equal : encode first = encode second) : first = second := by
  have appended : encode first ++ [] = encode second ++ [] := by rw [equal]
  exact (delimiting first second [] [] small (equal ▸ small) appended).1

theorem ofFixedLength {encode : α → Bytes} {width : Nat}
    (length : ∀ value, (encode value).length = width)
    (injective : ∀ first second, encode first = encode second → first = second) :
    SelfDelimiting encode := by
  intro first second firstRest secondRest _ _ equal
  obtain ⟨values, rests⟩ := List.append_inj equal (by rw [length, length])
  exact ⟨injective first second values, rests⟩

theorem pair {encodeFirst : α → Bytes} {encodeSecond : β → Bytes}
    (firstDelimiting : SelfDelimiting encodeFirst)
    (secondDelimiting : SelfDelimiting encodeSecond) :
    SelfDelimiting fun fields : α × β =>
      encodeFirst fields.1 ++ encodeSecond fields.2 := by
  rintro ⟨a, b⟩ ⟨a', b'⟩ rest rest' small small' equal
  simp only [List.length_append] at small small'
  simp only [List.append_assoc] at equal
  obtain ⟨rfl, tails⟩ := firstDelimiting a a' _ _ (by omega) (by omega) equal
  obtain ⟨rfl, rests⟩ := secondDelimiting b b' _ _ (by omega) (by omega) tails
  exact ⟨rfl, rests⟩

theorem ofFields {encode : β → Bytes} (delimiting : SelfDelimiting encode)
    (fields : α → β) (faithful : Function.Injective fields) :
    SelfDelimiting fun record : α => encode (fields record) := by
  intro first second firstRest secondRest firstSmall secondSmall equal
  obtain ⟨same, rests⟩ :=
    delimiting _ _ firstRest secondRest firstSmall secondSmall equal
  exact ⟨faithful same, rests⟩

private theorem flatMap_delimited {encode : α → Bytes}
    (delimiting : SelfDelimiting encode) :
    ∀ (first second : List α) (firstRest secondRest : Bytes),
      first.length = second.length →
      (first.flatMap encode).length < 2 ^ 64 →
      (second.flatMap encode).length < 2 ^ 64 →
      first.flatMap encode ++ firstRest = second.flatMap encode ++ secondRest →
        first = second ∧ firstRest = secondRest := by
  intro first
  induction first with
  | nil =>
      intro second firstRest secondRest lengths _ _ equal
      obtain rfl := List.eq_nil_of_length_eq_zero lengths.symm
      exact ⟨rfl, by simpa using equal⟩
  | cons head tail ih =>
      intro second firstRest secondRest lengths firstSmall secondSmall equal
      cases second with
      | nil => simp at lengths
      | cons head' tail' =>
          simp only [List.flatMap_cons, List.length_append] at firstSmall secondSmall
          simp only [List.flatMap_cons, List.append_assoc] at equal
          obtain ⟨rfl, tails⟩ :=
            delimiting head head' _ _ (by omega) (by omega) equal
          obtain ⟨rfl, rests⟩ := ih tail' firstRest secondRest
            (by simpa using lengths) (by omega) (by omega) tails
          exact ⟨rfl, rests⟩

theorem length_le_flatMap {encode : α → Bytes}
    (nonempty : ∀ value, 0 < (encode value).length) (values : List α) :
    values.length ≤ (values.flatMap encode).length := by
  induction values with
  | nil => simp
  | cons head tail ih =>
      have := nonempty head
      simp only [List.flatMap_cons, List.length_append, List.length_cons]
      omega

def sequence (encode : α → Bytes) (values : List α) : Bytes :=
  leBytes 8 values.length ++ values.flatMap encode

theorem sequence_delimiting {encode : α → Bytes}
    (delimiting : SelfDelimiting encode)
    (nonempty : ∀ value, 0 < (encode value).length) :
    SelfDelimiting (sequence encode) := by
  intro first second firstRest secondRest firstSmall secondSmall equal
  have firstLength := length_le_flatMap nonempty first
  have secondLength := length_le_flatMap nonempty second
  simp only [sequence, List.length_append, leBytes_length] at firstSmall secondSmall
  simp only [sequence, List.append_assoc] at equal
  obtain ⟨lengthBytes, tails⟩ := List.append_inj equal (by simp)
  have lengths : first.length = second.length :=
    leBytes_injective (by norm_num; omega) (by norm_num; omega) lengthBytes
  exact flatMap_delimited delimiting first second firstRest secondRest lengths
    (by omega) (by omega) tails

def optional (encode : α → Bytes) : Option α → Bytes
  | none => [0]
  | some value => 1 :: encode value

theorem optional_delimiting {encode : α → Bytes}
    (delimiting : SelfDelimiting encode) :
    SelfDelimiting (optional encode) := by
  intro first second firstRest secondRest firstSmall secondSmall equal
  cases first with
  | none =>
      cases second with
      | none => exact ⟨rfl, by simpa [optional] using equal⟩
      | some value => simp [optional] at equal
  | some value =>
      cases second with
      | none => simp [optional] at equal
      | some value' =>
          simp only [optional, List.length_cons] at firstSmall secondSmall
          simp only [optional, List.cons_append, List.cons.injEq, true_and] at equal
          obtain ⟨rfl, rests⟩ :=
            delimiting value value' _ _ (by omega) (by omega) equal
          exact ⟨rfl, rests⟩

end PrefixCode
