import Vtorrent.BodyCommitment

/-!
# What a signature hash commits to

The signature hash is computed by streaming the fields of a transaction into the hash function.
The stream is the serialization of the transaction with its scripts replaced, so a hash
determines everything but the replaced scripts.
-/

namespace Vtorrent

open PrefixCode

def TxInput.unsigned (input : TxInput) : Hash × UInt32 × UInt32 :=
  (input.prevTxid, input.prevVout, input.sequence)

theorem encodeBytes_eq (bytes : Bytes) : encodeBytes bytes = leBytes 8 bytes.length ++ bytes := by
  simp [encodeBytes, PrefixCode.sequence]

namespace Transaction

def inputUpdates (index : Nat) (subscript : Bytes) (place : Nat) (input : TxInput) :
    List Bytes :=
  let sig := if place = index then subscript else []
  [input.prevTxid.toList, encodeU32 input.prevVout, leBytes 8 sig.length, sig,
    encodeU32 input.sequence]

def outputUpdates (output : TxOutput) : List Bytes :=
  [encodeU64 output.value, leBytes 8 output.scriptPubkey.length, output.scriptPubkey]

def optionUpdates : Option Bytes → List Bytes
  | none => [[0]]
  | some bytes => [[1], leBytes 8 bytes.length, bytes]

def sighashUpdates (tx : Transaction) (index : Nat) (subscript : Bytes) : List Bytes :=
  [encodeU32 tx.version, leBytes 4 tx.txType.index, leBytes 8 tx.inputs.length] ++
    (tx.inputs.mapIdx (inputUpdates index subscript)).flatten ++
    leBytes 8 tx.outputs.length :: tx.outputs.flatMap outputUpdates ++
    encodeU32 tx.lockTime :: optionUpdates (tx.claimAddress.map stringBytes) ++
    optionUpdates tx.claimSignature ++ [leBytes 4 1]

def streamedSighash (crypto : Crypto) (tx : Transaction) (index : Nat) (subscript : Bytes) :
    Hash :=
  crypto.sha256 (crypto.sha256 (tx.sighashUpdates index subscript).flatten).toList

theorem flatten_outputUpdates (outputs : List TxOutput) :
    (outputs.flatMap outputUpdates).flatten = outputs.flatMap TxOutput.encode := by
  induction outputs with
  | nil => rfl
  | cons output outputs ih =>
      rw [List.flatMap_cons, List.flatten_append, ih, List.flatMap_cons]
      simp [outputUpdates, TxOutput.encode, encodeBytes_eq]

theorem flatten_optionUpdates (field : Option Bytes) :
    (optionUpdates field).flatten = PrefixCode.optional encodeBytes field := by
  cases field with
  | none => rfl
  | some bytes => simp [optionUpdates, PrefixCode.optional, encodeBytes_eq]

theorem flatten_inputUpdates (index : Nat) (subscript : Bytes) (place : Nat) (input : TxInput) :
    (inputUpdates index subscript place input).flatten =
      { input with scriptSig := if place = index then subscript else [] }.encode := by
  simp [inputUpdates, TxInput.encode, encodeBytes_eq]

theorem optional_map_stringBytes (text : Option String) :
    PrefixCode.optional encodeBytes (text.map stringBytes) =
      PrefixCode.optional encodeString text := by
  cases text <;> rfl

/-- The streamed bytes are the serialization of the transaction with its scripts replaced. -/
theorem flatten_sighashUpdates (tx : Transaction) (index : Nat) (subscript : Bytes) :
    (tx.sighashUpdates index subscript).flatten =
      (tx.withSubscript index subscript).encode ++ leBytes 4 1 := by
  have inputs : (tx.inputs.mapIdx (inputUpdates index subscript)).flatten.flatten =
      (tx.withSubscript index subscript).inputs.flatMap TxInput.encode := by
    simp only [withSubscript, List.mapIdx_eq_zipIdx_map, List.flatten_flatten, List.map_map,
      Function.comp_def, flatten_inputUpdates, List.flatMap_def]
  simp only [sighashUpdates, List.flatten_append, List.flatten_cons, List.flatten_nil, inputs,
    flatten_outputUpdates, flatten_optionUpdates, optional_map_stringBytes, encode,
    PrefixCode.sequence]
  simp [withSubscript]

theorem scriptSig_withSubscript {tx : Transaction} {index place : Nat} {subscript : Bytes}
    {input : TxInput} (found : (tx.withSubscript index subscript).inputs[place]? = some input) :
    input.scriptSig = if place = index then subscript else [] := by
  rw [withSubscript, List.getElem?_mapIdx] at found
  obtain ⟨original, _, rfl⟩ := Option.map_eq_some_iff.mp found
  rfl

theorem withSubscript_injective {first second : Transaction} {i j : Nat} {a b : Bytes}
    (inRange : i < first.inputs.length) (nonempty : a ≠ [])
    (same : first.withSubscript i a = second.withSubscript j b) : i = j ∧ a = b := by
  have length : (first.withSubscript i a).inputs.length = first.inputs.length := by
    simp [withSubscript]
  obtain ⟨input, found⟩ : ∃ input, (first.withSubscript i a).inputs[i]? = some input :=
    ⟨_, List.getElem?_eq_getElem (by omega)⟩
  have signed := scriptSig_withSubscript found
  rw [if_pos rfl] at signed
  rw [same] at found
  have placed := scriptSig_withSubscript found
  by_cases place : i = j
  · rw [if_pos place] at placed
    exact ⟨place, by rw [← signed, placed]⟩
  · rw [if_neg place, signed] at placed
    exact absurd placed nonempty

theorem unsigned_withSubscript (tx : Transaction) (index : Nat) (subscript : Bytes) :
    (tx.withSubscript index subscript).inputs.map TxInput.unsigned =
      tx.inputs.map TxInput.unsigned := by
  simp only [withSubscript, List.mapIdx_eq_zipIdx_map, List.map_map, Function.comp_def,
    TxInput.unsigned]
  rw [← List.zipIdx_map_fst 0 tx.inputs, List.map_map]
  simp [TxInput.unsigned]

/-- The transaction that is signed and the place of the signature. -/
structure SameCommitment (first second : Transaction) (i j : Nat) (a b : Bytes) : Prop where
  index : i = j
  subscript : a = b
  inputs : first.inputs.map TxInput.unsigned = second.inputs.map TxInput.unsigned
  outputs : first.outputs = second.outputs
  version : first.version = second.version
  txType : first.txType = second.txType
  lockTime : first.lockTime = second.lockTime
  claimAddress : first.claimAddress = second.claimAddress
  claimSignature : first.claimSignature = second.claimSignature

theorem sameCommitment_of_withSubscript {first second : Transaction} {i j : Nat} {a b : Bytes}
    (inRange : i < first.inputs.length) (nonempty : a ≠ [])
    (same : first.withSubscript i a = second.withSubscript j b) :
    SameCommitment first second i j a b := by
  obtain ⟨index, subscript⟩ := withSubscript_injective inRange nonempty same
  have inputs : first.inputs.map TxInput.unsigned = second.inputs.map TxInput.unsigned := by
    rw [← unsigned_withSubscript first i a, same, unsigned_withSubscript]
  simp only [withSubscript, Transaction.mk.injEq] at same
  obtain ⟨version, txType, _, outputs, lockTime, claimAddress, claimSignature⟩ := same
  exact ⟨index, subscript, inputs, outputs, version, txType, lockTime, claimAddress,
    claimSignature⟩

/-- The streamed hash is the double hash of the serialized transaction with its scripts
replaced.  Equal hashes commit to the same input, subscript and transaction, as long as the
hash function tells the two streams apart. -/
theorem sighash_commits (crypto : Crypto) :
    (∀ (tx : Transaction) (index : Nat) (subscript : Bytes), index < tx.inputs.length →
      tx.streamedSighash crypto index subscript =
        crypto.sha256d ((tx.withSubscript index subscript).encode ++ leBytes 4 1)) ∧
    ∀ (first second : Transaction) (i j : Nat) (a b : Bytes),
      i < first.inputs.length → j < second.inputs.length → a ≠ [] → b ≠ [] →
      (first.withSubscript i a).encode.length < 2 ^ 64 →
      (second.withSubscript j b).encode.length < 2 ^ 64 →
      HashedApart crypto [(first.sighashUpdates i a).flatten,
        (second.sighashUpdates j b).flatten] →
      first.streamedSighash crypto i a = second.streamedSighash crypto j b →
      SameCommitment first second i j a b := by
  refine ⟨fun tx index subscript _ => ?_, ?_⟩
  · rw [streamedSighash, flatten_sighashUpdates, Crypto.sha256d]
  · intro first second i j a b inRange _ nonempty _ firstFits secondFits apart equal
    have streams : (first.sighashUpdates i a).flatten = (second.sighashUpdates j b).flatten :=
      apart _ (by simp) _ (by simp) equal
    rw [flatten_sighashUpdates, flatten_sighashUpdates] at streams
    exact sameCommitment_of_withSubscript inRange nonempty
      (Transaction.encode_delimiting _ _ _ _ firstFits secondFits streams).1

open Regtest in
/-- A transfer and the same transfer after it was signed. -/
theorem sighash_commits_signed :
    SameCommitment (transfer .standard 0 1)
      { transfer .standard 0 1 with inputs := [⟨zeroHash, 1, [0x51], 0⟩] } 0 0 [0x76] [0x76] :=
  (sighash_commits crypto).2 _ _ 0 0 [0x76] [0x76] (by decide) (by decide) (by decide)
    (by decide) (by decide +kernel) (by decide +kernel) (by decide +kernel)
    (by decide +kernel)

end Transaction

end Vtorrent
