import Vtorrent.BlockValidity
import Vtorrent.Deliveries

/-!
# What a header says about the body

The Merkle root of a header commits to the transactions of a block.  Odd levels of the
tree duplicate their last node, so the root fixes the transactions only together with
their number: a body can be extended by copies of its own tail without changing the
root, and no other check of a block looks for repeated transactions.
-/

namespace Vtorrent

open PrefixCode DuplicatingMerkle

section Codes

theorem encodeU32_delimiting : SelfDelimiting encodeU32 := by
  refine ofFixedLength (fun value => leBytes_length 4 value.toNat) ?_
  intro first second equal
  exact UInt32.toNat_inj.mp
    (leBytes_injective first.toNat_lt second.toNat_lt equal)

theorem encodeU64_delimiting : SelfDelimiting encodeU64 := by
  refine ofFixedLength (fun value => leBytes_length 8 value.toNat) ?_
  intro first second equal
  exact UInt64.toNat_inj.mp
    (leBytes_injective first.toNat_lt second.toNat_lt equal)

theorem encodeBytes_delimiting : SelfDelimiting encodeBytes := by
  refine sequence_delimiting (ofFixedLength (fun _ => rfl) ?_) (fun _ => Nat.zero_lt_one)
  intro first second equal
  simpa using equal

theorem stringBytes_injective : Function.Injective stringBytes := by
  intro first second equal
  apply String.toByteArray_inj.mp
  apply ByteArray.ext
  exact Array.toList_inj.mp equal

theorem stringBytes_ofList (text : List Char) :
    stringBytes (String.ofList text) = text.flatMap String.utf8EncodeChar := by
  simp [stringBytes, List.utf8Encode]

theorem encodeString_delimiting : SelfDelimiting encodeString :=
  ofFields encodeBytes_delimiting stringBytes stringBytes_injective

theorem hash_delimiting : SelfDelimiting fun hash : Hash => hash.toList :=
  ofFixedLength (fun hash => hash.toList_length) fun _ _ equal => Subtype.ext equal

theorem txType_delimiting : SelfDelimiting fun txType : TxType => leBytes 4 txType.index := by
  refine ofFixedLength (fun txType => leBytes_length 4 txType.index) ?_
  intro first second equal
  cases first <;> cases second <;> first | rfl | (revert equal; decide)

theorem TxInput.encode_delimiting : SelfDelimiting TxInput.encode := by
  refine ofFields (pair hash_delimiting (pair encodeU32_delimiting
    (pair encodeBytes_delimiting encodeU32_delimiting)))
    (fun input : TxInput => (input.prevTxid, input.prevVout, input.scriptSig,
      input.sequence)) ?_
  rintro ⟨⟩ ⟨⟩ equal
  simpa using equal

theorem TxOutput.encode_delimiting : SelfDelimiting TxOutput.encode := by
  refine ofFields (pair encodeU64_delimiting encodeBytes_delimiting)
    (fun output : TxOutput => (output.value, output.scriptPubkey)) ?_
  rintro ⟨⟩ ⟨⟩ equal
  simpa using equal

theorem TxInput.encode_nonempty (input : TxInput) : 0 < input.encode.length := by
  simp [TxInput.encode]

theorem TxOutput.encode_nonempty (output : TxOutput) : 0 < output.encode.length := by
  simp [TxOutput.encode, encodeU64]

theorem Transaction.encode_delimiting : SelfDelimiting Transaction.encode := by
  refine ofFields (pair encodeU32_delimiting (pair txType_delimiting
    (pair (sequence_delimiting TxInput.encode_delimiting TxInput.encode_nonempty)
      (pair (sequence_delimiting TxOutput.encode_delimiting TxOutput.encode_nonempty)
        (pair encodeU32_delimiting (pair (optional_delimiting encodeString_delimiting)
          (optional_delimiting encodeBytes_delimiting)))))))
    (fun tx : Transaction => (tx.version, tx.txType, tx.inputs, tx.outputs,
      tx.lockTime, tx.claimAddress, tx.claimSignature)) ?_
  rintro ⟨⟩ ⟨⟩ equal
  simpa using equal

end Codes

/-- The messages hashed twice on the way from a list of transactions to its root. -/
def bodyPreimages (crypto : Crypto) (txs : List Transaction) : List Bytes :=
  txs.map Transaction.encode ++
    (preimages (combineHashes crypto) (txs.map (Transaction.txid crypto))).map
      fun pair => pair.1.toList ++ pair.2.toList

/-- Double SHA-256 tells the listed messages apart. -/
def HashedApart (crypto : Crypto) (messages : List Bytes) : Prop :=
  ∀ first ∈ messages, ∀ second ∈ messages,
    crypto.sha256d first = crypto.sha256d second → first = second

instance (crypto : Crypto) (messages : List Bytes) :
    Decidable (HashedApart crypto messages) :=
  inferInstanceAs (Decidable (∀ first ∈ messages, ∀ second ∈ messages,
    crypto.sha256d first = crypto.sha256d second → first = second))

section Commitment

variable {crypto : Crypto} {first second : List Transaction}

theorem collisionFree_of_hashedApart
    (apart : HashedApart crypto (bodyPreimages crypto first ++ bodyPreimages crypto second)) :
    CollisionFree (combineHashes crypto)
      (preimages (combineHashes crypto) (first.map (Transaction.txid crypto)) ++
        preimages (combineHashes crypto) (second.map (Transaction.txid crypto))) := by
  have listed : ∀ pair ∈
      preimages (combineHashes crypto) (first.map (Transaction.txid crypto)) ++
        preimages (combineHashes crypto) (second.map (Transaction.txid crypto)),
      pair.1.toList ++ pair.2.toList ∈
        bodyPreimages crypto first ++ bodyPreimages crypto second := by
    intro pair member
    rcases List.mem_append.mp member with left | right
    · exact List.mem_append_left _ (List.mem_append_right _
        (List.mem_map.mpr ⟨pair, left, rfl⟩))
    · exact List.mem_append_right _ (List.mem_append_right _
        (List.mem_map.mpr ⟨pair, right, rfl⟩))
  rintro ⟨a, b⟩ inLeft ⟨c, d⟩ inRight same
  have equal := apart _ (listed _ inLeft) _ (listed _ inRight) same
  obtain ⟨left, right⟩ := List.append_inj equal (by simp)
  exact Prod.ext (Subtype.ext left) (Subtype.ext right)

theorem transactions_of_txids
    (apart : HashedApart crypto (bodyPreimages crypto first ++ bodyPreimages crypto second))
    (small : ∀ tx ∈ first, tx.encode.length < 2 ^ 64)
    (same : first.map (Transaction.txid crypto) = second.map (Transaction.txid crypto)) :
    first = second := by
  have lengths : first.length = second.length := by
    simpa using congrArg List.length same
  apply List.ext_getElem lengths
  intro i inFirst inSecond
  have sameId : (first[i]).txid crypto = (second[i]).txid crypto := by
    have at_i := congrArg (·[i]?) same
    simpa [inFirst, inSecond] using at_i
  have encoded : (first[i]).encode = (second[i]).encode := by
    apply apart _ _ _ _ sameId
    · exact List.mem_append_left _ (List.mem_append_left _
        (List.mem_map_of_mem (List.getElem_mem inFirst)))
    · exact List.mem_append_right _ (List.mem_append_left _
        (List.mem_map_of_mem (List.getElem_mem inSecond)))
  exact Transaction.encode_delimiting.injective (small _ (List.getElem_mem inFirst)) encoded

end Commitment

theorem BlockValid.encode_length_lt {crypto : Crypto} {block : Block} {parent : ParentView}
    {allowPow : Bool} (valid : BlockValid crypto block parent allowPow) :
    ∀ tx ∈ block.transactions, tx.encode.length < 2 ^ 64 := by
  intro tx member
  have size := valid.size
  have part : tx.encode.length ≤ (block.transactions.flatMap Transaction.encode).length := by
    rw [List.length_flatMap]
    exact List.single_le_sum (by simp) _ (List.mem_map_of_mem member)
  rw [Block.encode, List.length_append, PrefixCode.sequence, List.length_append] at size
  have limit : maxBlockSize < 2 ^ 64 := by decide
  omega

/-- Two accepted bodies under one header are equal exactly when they hold the same
number of transactions. -/
theorem bodies_eq_iff_length_eq {crypto : Crypto} {now later : UInt32}
    {first second : Block} {parent : ParentView} {allowPow : Bool}
    (sameHeader : first.header = second.header)
    (firstAccepted : validateBlockInner crypto now first parent allowPow = .ok ())
    (secondAccepted : validateBlockInner crypto later second parent allowPow = .ok ())
    (apart : HashedApart crypto (bodyPreimages crypto first.transactions ++
      bodyPreimages crypto second.transactions)) :
    first.transactions = second.transactions ↔
      first.transactions.length = second.transactions.length := by
  have firstValid := (validateBlockInner_eq_ok.mp firstAccepted).1
  have secondValid := (validateBlockInner_eq_ok.mp secondAccepted).1
  constructor
  · exact congrArg List.length
  · intro sameLength
    have sameRoot : first.computeMerkleRoot crypto = second.computeMerkleRoot crypto := by
      rw [firstValid.merkle, secondValid.merkle, sameHeader]
    have sameIds := root_injective (by simpa using firstValid.nonempty)
      (by simpa using sameLength) (collisionFree_of_hashedApart apart) sameRoot
    exact transactions_of_txids apart firstValid.encode_length_lt sameIds

namespace Regtest

def transfer (txType : TxType) (lockTime vout : UInt32) : Transaction where
  version := 1
  txType := txType
  inputs := [⟨zeroHash, vout, [], 0⟩]
  outputs := [⟨1, [0x51]⟩]
  lockTime := lockTime
  claimAddress := none
  claimSignature := none

def threefold : List Transaction :=
  [transfer .coinstake 1 0, transfer .standard 0 1, transfer .standard 0 2]

/-- The same body with its last transaction repeated. -/
def padded : List Transaction := threefold ++ [transfer .standard 0 2]

def stakedBlock (body : List Transaction) : Block where
  header := { (mine network.genesisBlock.header 1 0 []).header with
    merkleRoot := computeMerkleRootFromTxids crypto
      (threefold.map (Transaction.txid crypto)) }
  transactions := body

def genesisParent : ParentView :=
  Chain.parentView network.genesisBlock.header 0 (network.genesisBlock.hash crypto)

end Regtest

section Padded

open Regtest

theorem validate_threefold_padded :
    validateBlockInner crypto 2000000000 (stakedBlock threefold) genesisParent false = .ok () ∧
      validateBlockInner crypto 2000000000 (stakedBlock padded) genesisParent false = .ok () ∧
      HashedApart crypto (bodyPreimages crypto threefold ++ bodyPreimages crypto padded) := by
  decide +kernel

/-- Two accepted bodies of different lengths under one header. -/
theorem bodies_eq_iff_of_padded :
    (stakedBlock threefold).transactions = (stakedBlock padded).transactions ↔
      (stakedBlock threefold).transactions.length =
        (stakedBlock padded).transactions.length := by
  have sameHeader : (stakedBlock threefold).header = (stakedBlock padded).header := rfl
  obtain ⟨accepted, accepted', apart⟩ := validate_threefold_padded
  exact bodies_eq_iff_length_eq sameHeader accepted accepted' apart

/-- A body and its extension by a copy of its last transaction are both accepted under
one header, without any collision. -/
theorem two_bodies_under_one_header :
    (stakedBlock threefold).header = (stakedBlock padded).header ∧
      validateBlockInner crypto 2000000000 (stakedBlock threefold) genesisParent false =
        .ok () ∧
      validateBlockInner crypto 2000000000 (stakedBlock padded) genesisParent false =
        .ok () ∧
      HashedApart crypto (bodyPreimages crypto threefold ++ bodyPreimages crypto padded) ∧
      (stakedBlock threefold).transactions ≠ (stakedBlock padded).transactions := by
  obtain ⟨accepted, accepted', apart⟩ := validate_threefold_padded
  exact ⟨rfl, accepted, accepted', apart, by decide⟩

end Padded

end Vtorrent
