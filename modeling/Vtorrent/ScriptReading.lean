import Vtorrent.AssembledScripts

/-!
# Reading a script

The bytes of a single item are a small grammar, and a script that passes validation is read
completely: its bytes are the bytes of its items, one after the other.
-/

namespace Vtorrent

open Checked

namespace Script

/-- The bytes that are read as one item: an empty push, data behind one, two, three or five
bytes, or an opcode. -/
inductive Spells : Bytes → Item → Prop
  | empty : Spells [0x00] (.pushData [])
  | short {byte : UInt8} {data : Bytes} (nonzero : byte ≠ 0x00) (small : byte.toNat ≤ 75)
      (length : byte.toNat = data.length) : Spells (byte :: data) (.pushData data)
  | byOne {byte : UInt8} {data : Bytes} (length : byte.toNat = data.length) :
      Spells (0x4c :: byte :: data) (.pushData data)
  | byTwo {count data : Bytes} (width : count.length = 2)
      (length : leValue count = data.length) : Spells (0x4d :: (count ++ data)) (.pushData data)
  | byFour {count data : Bytes} (width : count.length = 4)
      (length : leValue count = data.length) : Spells (0x4e :: (count ++ data)) (.pushData data)
  | opcode {op : UInt8} (large : 0x4e < op.toNat) : Spells [op] (.opcode op)

theorem takePush_eq_some {length : Nat} {bytes rest : Bytes} {item : Item} :
    takePush length bytes = some (item, rest) ↔
      ∃ data, item = .pushData data ∧ bytes = data ++ rest ∧ length = data.length := by
  rw [takePush]
  split
  · rename_i short
    constructor
    · intro taken
      cases taken
    · rintro ⟨data, -, rfl, rfl⟩
      simp at short
  · rename_i long
    rw [Option.some.injEq, Prod.mk.injEq]
    constructor
    · rintro ⟨rfl, rfl⟩
      exact ⟨_, rfl, (List.take_append_drop length bytes).symm, by simp; omega⟩
    · rintro ⟨data, rfl, rfl, rfl⟩
      simp

theorem takePush_length (data rest : Bytes) :
    takePush data.length (data ++ rest) = some (.pushData data, rest) :=
  takePush_eq_some.mpr ⟨data, rfl, rfl, rfl⟩

theorem takeCounted {count data : Bytes} {width : Nat} (sized : count.length = width)
    (length : leValue count = data.length) (rest : Bytes) :
    (if (count ++ data ++ rest).length < width then none
      else takePush (leValue ((count ++ data ++ rest).take width))
        ((count ++ data ++ rest).drop width)) = some (.pushData data, rest) := by
  subst sized
  rw [if_neg (by simp only [List.length_append]; omega), List.append_assoc, List.take_left,
    List.drop_left, length, takePush_length]

theorem nextItem_of_spells {used rest : Bytes} {item : Item} (spelled : Spells used item) :
    nextItem (used ++ rest) = some (item, rest) := by
  cases spelled with
  | empty => rfl
  | @short byte data nonzero small length =>
      simp only [List.cons_append, nextItem]
      rw [if_neg nonzero, if_pos small, length, takePush_length]
  | @byOne byte data length =>
      change takePush byte.toNat (data ++ rest) = _
      rw [length, takePush_length]
  | byTwo width length => exact takeCounted width length rest
  | byFour width length => exact takeCounted width length rest
  | @opcode op large => exact @nextItem_encode (.opcode op) large rest

/-- What the iterator takes off the front spells the item it returns. -/
theorem spells_of_nextItem {bytes rest : Bytes} {item : Item}
    (found : nextItem bytes = some (item, rest)) :
    ∃ used, bytes = used ++ rest ∧ Spells used item := by
  cases bytes with
  | nil => cases found
  | cons byte tail =>
      simp only [nextItem] at found
      by_cases zero : byte = 0x00
      · rw [if_pos zero] at found
        cases found
        subst zero
        exact ⟨[0x00], rfl, .empty⟩
      rw [if_neg zero] at found
      by_cases small : byte.toNat ≤ 75
      · rw [if_pos small, takePush_eq_some] at found
        obtain ⟨data, rfl, rfl, length⟩ := found
        exact ⟨byte :: data, rfl, .short zero small length⟩
      rw [if_neg small] at found
      by_cases one : byte = 0x4c
      · rw [if_pos one] at found
        cases tail with
        | nil => cases found
        | cons count tail =>
            obtain ⟨data, rfl, rfl, length⟩ := takePush_eq_some.mp found
            subst one
            exact ⟨0x4c :: count :: data, rfl, .byOne length⟩
      rw [if_neg one] at found
      have counted : ∀ width, (if tail.length < width then none
            else takePush (leValue (tail.take width)) (tail.drop width)) = some (item, rest) →
          ∃ count data, count.length = width ∧ leValue count = data.length ∧
            item = .pushData data ∧ tail = count ++ data ++ rest := by
        intro width found
        split at found
        · cases found
        · obtain ⟨data, rfl, remaining, length⟩ := takePush_eq_some.mp found
          refine ⟨tail.take width, data, by simp; omega, length, rfl, ?_⟩
          rw [List.append_assoc, ← remaining, List.take_append_drop]
      by_cases two : byte = 0x4d
      · rw [if_pos two] at found
        obtain ⟨count, data, width, length, rfl, rfl⟩ := counted 2 found
        subst two
        exact ⟨0x4d :: (count ++ data), rfl, .byTwo width length⟩
      rw [if_neg two] at found
      by_cases four : byte = 0x4e
      · rw [if_pos four] at found
        obtain ⟨count, data, width, length, rfl, rfl⟩ := counted 4 found
        subst four
        exact ⟨0x4e :: (count ++ data), rfl, .byFour width length⟩
      rw [if_neg four] at found
      cases found
      refine ⟨[byte], rfl, .opcode ?_⟩
      simp only [← UInt8.toNat_inj] at one two four
      simp at one two four
      omega

theorem Spells.ne_nil {used : Bytes} {item : Item} (spelled : Spells used item) : used ≠ [] := by
  cases spelled <;> simp

inductive Reads : Bytes → List Item → Prop
  | nil : Reads [] []
  | cons {used rest : Bytes} {item : Item} {items : List Item} (spelled : Spells used item)
      (others : Reads rest items) : Reads (used ++ rest) (item :: items)

theorem validateWithin_cons (fuel : Nat) (byte : UInt8) (tail : Bytes) :
    validateWithin (fuel + 1) (byte :: tail) =
      match nextItem (byte :: tail) with
      | some (_, rest) => validateWithin fuel rest
      | none => .error .truncatedPush := by
  have skipped : ∀ length (bytes : Bytes),
      (if bytes.length < length then .error .truncatedPush
        else validateWithin fuel (bytes.drop length)) =
      match takePush length bytes with
      | some (_, rest) => validateWithin fuel rest
      | none => Except.error ScriptError.truncatedPush := by
    intro length bytes
    rw [takePush]
    split <;> rfl
  simp only [validateWithin, nextItem]
  split
  · rfl
  · split
    · exact skipped _ _
    · split
      · cases tail with
        | nil => rfl
        | cons count tail => exact skipped _ _
      · split
        · split
          · rfl
          · exact skipped _ _
        · split
          · split
            · rfl
            · exact skipped _ _
          · rfl

theorem validateWithin_reads {fuel : Nat} {bytes : Bytes} (enough : bytes.length ≤ fuel)
    (valid : validateWithin fuel bytes = .ok ()) : Reads bytes (itemsWithin fuel bytes) := by
  induction fuel generalizing bytes with
  | zero =>
      obtain rfl : bytes = [] := List.eq_nil_of_length_eq_zero (by omega)
      exact .nil
  | succ fuel ih =>
      cases bytes with
      | nil => exact .nil
      | cons byte tail =>
          rw [validateWithin_cons] at valid
          rw [itemsWithin]
          cases found : nextItem (byte :: tail) with
          | none =>
              rw [found] at valid
              cases valid
          | some next =>
              obtain ⟨item, rest⟩ := next
              rw [found] at valid
              obtain ⟨used, parts, spelled⟩ := spells_of_nextItem found
              have nonempty := List.length_pos_iff.mpr spelled.ne_nil
              have lengths := congrArg List.length parts
              simp only [List.length_cons, List.length_append] at lengths enough
              rw [parts]
              exact .cons spelled (ih (by omega) valid)

theorem reads_within {bytes : Bytes} {items : List Item} (reads : Reads bytes items)
    {fuel : Nat} (enough : bytes.length ≤ fuel) :
    validateWithin fuel bytes = .ok () ∧ itemsWithin fuel bytes = items := by
  induction reads generalizing fuel with
  | nil => cases fuel <;> exact ⟨rfl, rfl⟩
  | @cons used rest item items spelled others ih =>
      obtain ⟨byte, tail, rfl⟩ := List.exists_cons_of_ne_nil spelled.ne_nil
      have found : nextItem (byte :: (tail ++ rest)) = some (item, rest) :=
        nextItem_of_spells spelled
      cases fuel with
      | zero => simp at enough
      | succ fuel =>
          simp only [List.cons_append, List.length_cons, List.length_append] at enough
          obtain ⟨valid, read⟩ := @ih fuel (by omega)
          rw [List.cons_append, validateWithin_cons, itemsWithin, found]
          exact ⟨valid, congrArg _ read⟩

theorem reads_iff {script : Script} {items : List Item} :
    Reads script.bytes items ↔ script.validate = .ok () ∧ script.items = items := by
  constructor
  · intro reads
    exact reads_within reads le_rfl
  · rintro ⟨valid, rfl⟩
    exact validateWithin_reads le_rfl valid

theorem Reads.uncons {bytes : Bytes} {item : Item} {items : List Item}
    (reads : Reads bytes (item :: items)) :
    ∃ used rest, bytes = used ++ rest ∧ Spells used item ∧ Reads rest items := by
  cases reads with
  | cons spelled others => exact ⟨_, _, rfl, spelled, others⟩

theorem Reads.append {first second : Bytes} {items others : List Item}
    (reads : Reads first items) (then_ : Reads second others) :
    Reads (first ++ second) (items ++ others) := by
  induction reads with
  | nil => exact then_
  | cons spelled _ ih =>
      rw [List.append_assoc]
      exact .cons spelled ih

end Script

end Vtorrent
