import Vtorrent.ScriptForms

/-!
# Assembled scripts

A script assembled from opcodes and short pushes passes validation and is read back as
the items it was assembled from.
-/

namespace Vtorrent

namespace Script

def Item.encode : Item → Bytes
  | .opcode op => [op]
  | .pushData data => UInt8.ofNat data.length :: data

/-- Opcodes above the push opcodes, and pushes short enough for one length byte. -/
def Item.Encodable : Item → Prop
  | .opcode op => 0x4e < op.toNat
  | .pushData data => data.length ≤ 75

instance (item : Item) : Decidable item.Encodable := by
  cases item <;> unfold Item.Encodable <;> infer_instance

def assemble (items : List Item) : Script := ⟨items.flatMap Item.encode⟩

theorem opcode_ne {op value : UInt8} (encodable : (Item.opcode op).Encodable)
    (small : value.toNat ≤ 0x4e) : op ≠ value := by
  rintro rfl
  unfold Item.Encodable at encodable
  omega

theorem toNat_length {data : Bytes} (encodable : (Item.pushData data).Encodable) :
    (UInt8.ofNat data.length).toNat = data.length := by
  unfold Item.Encodable at encodable
  rw [UInt8.toNat_ofNat']
  omega

theorem length_ne_zero {first : UInt8} {others : Bytes}
    (encodable : (Item.pushData (first :: others)).Encodable) :
    UInt8.ofNat (first :: others).length ≠ 0x00 := by
  intro zero
  have value := congrArg UInt8.toNat zero
  rw [toNat_length encodable] at value
  simp at value

theorem nextItem_encode {item : Item} (encodable : item.Encodable) (rest : Bytes) :
    nextItem (item.encode ++ rest) = some (item, rest) := by
  cases item with
  | opcode op =>
      change nextItem (op :: rest) = _
      have large : ¬ op.toNat ≤ 75 := by
        unfold Item.Encodable at encodable
        omega
      simp [nextItem, large, opcode_ne encodable]
  | pushData data =>
      change nextItem (UInt8.ofNat data.length :: (data ++ rest)) = _
      cases data with
      | nil => simp [nextItem]
      | cons first others =>
          have short : (first :: others).length ≤ 75 := encodable
          simp only [nextItem]
          rw [if_neg (length_ne_zero encodable), toNat_length encodable, if_pos short,
            takePush]
          simp

theorem encode_ne_nil (item : Item) : item.encode ≠ [] := by
  cases item <;> simp [Item.encode]

theorem itemsWithin_flatMap {items : List Item}
    (encodable : ∀ item ∈ items, item.Encodable) {fuel : Nat}
    (enough : items.length ≤ fuel) :
    itemsWithin fuel (items.flatMap Item.encode) = items := by
  induction items generalizing fuel with
  | nil => cases fuel <;> simp [itemsWithin, nextItem]
  | cons item items ih =>
      obtain ⟨fuel, rfl⟩ : ∃ smaller, fuel = smaller + 1 :=
        ⟨fuel - 1, by simp at enough; omega⟩
      rw [List.forall_mem_cons] at encodable
      rw [List.flatMap_cons, itemsWithin, nextItem_encode encodable.1]
      exact congrArg _ (ih encodable.2 (by simpa using enough))

theorem length_le_length_flatMap (items : List Item) :
    items.length ≤ (items.flatMap Item.encode).length :=
  PrefixCode.length_le_flatMap (fun item => List.length_pos_iff.mpr (encode_ne_nil item))
    items

theorem items_assemble {items : List Item}
    (encodable : ∀ item ∈ items, item.Encodable) : (assemble items).items = items :=
  itemsWithin_flatMap encodable (length_le_length_flatMap items)

theorem validateWithin_encode {item : Item} (encodable : item.Encodable) (fuel : Nat)
    (rest : Bytes) :
    validateWithin (fuel + 1) (item.encode ++ rest) = validateWithin fuel rest := by
  cases item with
  | opcode op =>
      change validateWithin (fuel + 1) (op :: rest) = _
      have large : ¬ op.toNat ≤ 75 := by
        unfold Item.Encodable at encodable
        omega
      simp [validateWithin, large, opcode_ne encodable]
  | pushData data =>
      change validateWithin (fuel + 1) (UInt8.ofNat data.length :: (data ++ rest)) = _
      cases data with
      | nil => simp [validateWithin]
      | cons first others =>
          have short : (first :: others).length ≤ 75 := encodable
          simp only [validateWithin]
          rw [if_neg (length_ne_zero encodable), toNat_length encodable, if_pos short]
          simp

theorem validateWithin_flatMap {items : List Item}
    (encodable : ∀ item ∈ items, item.Encodable) (fuel : Nat) :
    validateWithin fuel (items.flatMap Item.encode) = .ok () := by
  induction items generalizing fuel with
  | nil => cases fuel <;> rfl
  | cons item items ih =>
      rw [List.forall_mem_cons] at encodable
      cases fuel with
      | zero => rfl
      | succ fuel =>
          rw [List.flatMap_cons, validateWithin_encode encodable.1]
          exact ih encodable.2 fuel

theorem validate_assemble {items : List Item}
    (encodable : ∀ item ∈ items, item.Encodable) : (assemble items).validate = .ok () :=
  validateWithin_flatMap encodable _

end Script

end Vtorrent
