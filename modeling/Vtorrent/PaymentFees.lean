import Vtorrent.Mempool
import Vtorrent.SignedPayments

/-!
# What a payment pays in fees

The builder charges for the size it estimates.  The encoding of the signed transaction is longer
than that, so a payment with a change output pays less than its rate for each byte, unless the
smallest fee makes up for it.
-/

namespace Vtorrent

open Checked

theorem Transaction.serializedSize_of_plain {tx : Transaction} (address : tx.claimAddress = none)
    (signature : tx.claimSignature = none) :
    tx.serializedSize = 30 + (tx.inputs.map fun input => 48 + input.scriptSig.length).sum +
      (tx.outputs.map fun output => 16 + output.scriptPubkey.length).sum := by
  have inputs : ∀ input : TxInput, input.encode.length = 48 + input.scriptSig.length := by
    intro input
    simp [TxInput.encode, encodeU32, encodeBytes, PrefixCode.sequence]
    omega
  have outputs : ∀ output : TxOutput, output.encode.length = 16 + output.scriptPubkey.length := by
    intro output
    simp [TxOutput.encode, encodeU64, encodeBytes, PrefixCode.sequence]
    omega
  simp only [serializedSize, encode, address, signature, PrefixCode.sequence, PrefixCode.optional,
    List.length_append, leBytes_length, encodeU32, List.length_flatMap, inputs, outputs,
    List.length_singleton]
  omega

namespace TxBuilder

variable {tools : WalletCrypto} {keys : List (ByteVector 32 × Bytes)} {builder : TxBuilder}
  {available coins : List Utxo} {tx : Transaction} {funding : Funding}

def paid (coins : List Utxo) (tx : Transaction) : Nat :=
  (coins.map fun utxo => utxo.value.toNat).sum -
    (tx.outputs.map fun output => output.value.toNat).sum

/-- Signatures with a low second part have at most 71 bytes. -/
def LowSignatures (sign : ByteVector 32 → Hash → SerializedSignature) : Prop :=
  ∀ secret digest, (sign secret digest).der.length ≤ 71

def estimatedSize (builder : TxBuilder) (funding : Funding) : Nat :=
  txOverhead + funding.coins.length * p2pkhInputSize + builder.outputBytes

/-- The size of the encoding when all signatures have 71 bytes. -/
def largestSize (builder : TxBuilder) (funding : Funding) : Nat :=
  30 + 155 * funding.coins.length + 41 * builder.recipients.length +
    (builder.recipientScripts.map fun entry => 16 + entry.1.length).sum +
    if dustSatoshis ≤ funding.change then 41 else 0

/-- Whether the fee suffices: with a change output the smallest fee has to pay for the encoding,
unless the estimate reaches it, and without one what the coins leave over the payments. -/
def FeeSuffices (builder : TxBuilder) (funding : Funding) : Prop :=
  if dustSatoshis ≤ funding.change then
    builder.largestSize funding ≤ builder.estimatedSize funding ∨
      builder.feeRate.toNat * builder.largestSize funding ≤ builder.minAbsoluteFee.toNat
  else
    max builder.minAbsoluteFee.toNat (builder.feeRate.toNat * builder.largestSize funding) ≤
      funding.totalInput.toNat - funding.totalSend.toNat

section Outputs

variable {changeAddr : String} {change : UInt64} {outputs : List TxOutput}

theorem length_hashScriptPubkey (hash : ByteVector 20) : (hashScriptPubkey hash).length = 25 := by
  simp [hashScriptPubkey, Address.p2pkhScriptPubkey]

theorem length_p2pkhScriptPubkey {address : String} {script : Bytes}
    (paysTo : p2pkhScriptPubkey tools address = .ok script) : script.length = 25 := by
  obtain ⟨parsed, -, paysTo⟩ := bind_eq_ok.mp paysTo
  cases paysTo
  exact length_hashScriptPubkey _

theorem recipientOutput_eq_ok {recipient : String × UInt64} {output : TxOutput}
    (paysTo : recipientOutput tools recipient = .ok output) :
    output.value = recipient.2 ∧ output.scriptPubkey.length = 25 := by
  obtain ⟨_, -, paysTo⟩ := bind_eq_ok.mp paysTo
  obtain ⟨script, written, paysTo⟩ := bind_eq_ok.mp paysTo
  cases paysTo
  exact ⟨rfl, length_p2pkhScriptPubkey written⟩

theorem scriptOutput_eq_ok {recipient : Bytes × UInt64} {output : TxOutput}
    (paysTo : scriptOutput recipient = .ok output) : output = ⟨recipient.2, recipient.1⟩ := by
  obtain ⟨_, -, paysTo⟩ := bind_eq_ok.mp paysTo
  cases paysTo
  rfl

theorem recipientOutputs_eq_ok {recipients : List (String × UInt64)}
    (paysTo : recipients.mapM (recipientOutput tools) = .ok outputs) :
    outputs.map TxOutput.value = recipients.map Prod.snd ∧
      (outputs.map fun output => 16 + output.scriptPubkey.length).sum =
        41 * recipients.length := by
  have each := mapM_eq_ok.mp paysTo
  clear paysTo
  induction each with
  | nil => exact ⟨rfl, rfl⟩
  | cons here there ih =>
      obtain ⟨value, length⟩ := recipientOutput_eq_ok here
      simp only [List.map_cons, List.sum_cons, List.length_cons, value, length, ih.1, ih.2,
        true_and]
      omega

theorem scriptOutputs_eq_ok {recipients : List (Bytes × UInt64)}
    (paysTo : recipients.mapM scriptOutput = .ok outputs) :
    outputs = recipients.map fun entry => ⟨entry.2, entry.1⟩ := by
  have each := mapM_eq_ok.mp paysTo
  clear paysTo
  induction each with
  | nil => rfl
  | cons here there ih => rw [scriptOutput_eq_ok here, ih, List.map_cons]

theorem changeOutputs_eq_ok (paysTo : changeOutputs tools changeAddr change = .ok outputs) :
    outputs.map TxOutput.value = (if dustSatoshis ≤ change then [change] else []) ∧
      (outputs.map fun output => 16 + output.scriptPubkey.length).sum =
        if dustSatoshis ≤ change then 41 else 0 := by
  unfold changeOutputs at paysTo
  split at paysTo
  · rename_i worth
    obtain ⟨script, written, paysTo⟩ := bind_eq_ok.mp paysTo
    cases paysTo
    simp [worth, length_p2pkhScriptPubkey written]
  · rename_i dust
    cases paysTo
    simp [dust]

theorem buildOutputs_eq_ok
    (paysTo : buildOutputs tools builder changeAddr change = .ok outputs) :
    outputs.map TxOutput.value =
        builder.amounts ++ (if dustSatoshis ≤ change then [change] else []) ∧
      (outputs.map fun output => 16 + output.scriptPubkey.length).sum =
        41 * builder.recipients.length +
          (builder.recipientScripts.map fun entry => 16 + entry.1.length).sum +
          if dustSatoshis ≤ change then 41 else 0 := by
  obtain ⟨toAddresses, addressed, paysTo⟩ := bind_eq_ok.mp paysTo
  obtain ⟨toScripts, scripted, paysTo⟩ := bind_eq_ok.mp paysTo
  obtain ⟨changed, changes, paysTo⟩ := bind_eq_ok.mp paysTo
  cases paysTo
  obtain ⟨addressedValues, addressedSize⟩ := recipientOutputs_eq_ok addressed
  obtain ⟨changedValues, changedSize⟩ := changeOutputs_eq_ok changes
  rw [scriptOutputs_eq_ok scripted]
  simp only [List.map_append, List.sum_append, addressedValues, addressedSize, changedValues,
    changedSize, List.map_map, Function.comp_def, amounts, and_self]

end Outputs

theorem change_eq (worth : dustSatoshis ≤ funding.change) :
    546 ≤ funding.change.toNat ∧ funding.totalSend.toNat + funding.fee.toNat +
      funding.change.toNat = funding.totalInput.toNat := by
  have change : funding.change.toNat = funding.totalInput.toNat -
      min (funding.totalSend.toNat + funding.fee.toNat) (2 ^ 64 - 1) := by
    simp [Funding.change]
  have dust : 546 ≤ funding.change.toNat := UInt64.le_iff_toNat_le.mp worth
  have bound := funding.totalInput.toNat_lt
  omega

/-- With a change output the builder pays the fee it charged, and without one all that the coins
leave over the payments. -/
theorem paid_eq (funded : Funded builder available funding)
    (values : tx.outputs.map TxOutput.value = builder.amounts ++
      (if dustSatoshis ≤ funding.change then [funding.change] else [])) :
    paid funding.coins tx = if dustSatoshis ≤ funding.change then funding.fee.toNat
      else funding.totalInput.toNat - funding.totalSend.toNat := by
  have outputs : (tx.outputs.map fun output => output.value.toNat).sum =
      funding.totalSend.toNat +
        if dustSatoshis ≤ funding.change then funding.change.toNat else 0 := by
    have mapped := congrArg (fun list => (list.map UInt64.toNat).sum) values
    simp only [List.map_map, List.map_append, List.sum_append] at mapped
    rw [← funded.sent] at mapped
    refine mapped.trans ?_
    split <;> simp
  unfold paid
  rw [outputs, ← funded.spent]
  split
  · rename_i worth
    have whole := (change_eq worth).2
    omega
  · rw [Nat.add_zero]

theorem exists_signInputs (sign : ByteVector 32 → Hash → SerializedSignature) {index : Nat}
    {final : Transaction} (ran : signInputs tools keys index coins tx = .ok final)
    (other : Transaction) :
    ∃ signed, signInputs { tools with signEcdsa := sign } keys index coins other =
      .ok signed := by
  induction coins generalizing index tx other with
  | nil => exact ⟨other, rfl⟩
  | cons utxo coins ih =>
      obtain ⟨pair, chosen, ran⟩ := bind_eq_ok.mp ran
      obtain ⟨sig, signed, ran⟩ := bind_eq_ok.mp ran
      obtain ⟨valid, -⟩ := signInput_eq_ok.mp signed
      obtain ⟨result, rest⟩ := ih ran _
      exact ⟨result, bind_eq_ok.mpr ⟨pair, chosen, bind_eq_ok.mpr
        ⟨_, signInput_eq_ok.mpr ⟨valid, rfl⟩, rest⟩⟩⟩

theorem exists_build (sign : ByteVector 32 → Hash → SerializedSignature)
    (built : build tools builder available = .ok tx) :
    ∃ signed, build { tools with signEcdsa := sign } builder available = .ok signed := by
  obtain ⟨someone, keyed, keys, funding, outputs, decoded, funds, paysTo, ran⟩ :=
    build_eq_ok.mp built
  obtain ⟨signed, ran⟩ := exists_signInputs sign ran (builder.unsigned funding.coins outputs)
  exact ⟨signed, build_eq_ok.mpr
    ⟨someone, keyed, keys, funding, outputs, decoded, funds, paysTo, ran⟩⟩

/-- What a built transaction pays, and its inputs: each holds a signature and a key. -/
theorem built_fields (funds : builder.fund available = .ok funding)
    (built : build tools builder available = .ok tx) :
    tx.outputs.map TxOutput.value = builder.amounts ++
        (if dustSatoshis ≤ funding.change then [funding.change] else []) ∧
      tx.serializedSize + 155 * funding.coins.length = builder.largestSize funding +
        (tx.inputs.map fun input => 48 + input.scriptSig.length).sum ∧
      tx.inputs.length = funding.coins.length ∧
      ∀ input ∈ tx.inputs, ∃ secret digest,
        input.scriptSig.length = 36 + (tools.signEcdsa secret digest).der.length := by
  obtain ⟨-, -, keys, funding', outputs, decoded, funds', paysTo, ran⟩ := build_eq_ok.mp built
  cases funds.symm.trans funds'
  have signed := signed_of_signInputs ran
  have frame := signed.frame
  have outs : tx.outputs = outputs := congrArg Transaction.outputs frame
  obtain ⟨values, sizes⟩ := buildOutputs_eq_ok paysTo
  refine ⟨by rw [outs, values], ?_, signed.length_inputs, fun input member => ?_⟩
  · rw [Transaction.serializedSize_of_plain (congrArg Transaction.claimAddress frame)
      (congrArg Transaction.claimSignature frame), outs, sizes]
    unfold largestSize
    omega
  · obtain ⟨place, present⟩ := List.mem_iff_getElem?.mp member
    have inside : place < funding.coins.length := by
      rw [← signed.length_inputs]
      exact (List.getElem?_eq_some_iff.mp present).1
    obtain ⟨pair, chosen, -, written⟩ := signed.input (List.getElem?_eq_getElem inside)
    rw [present, Option.some.injEq] at written
    have pubkey := pubkey_of_decoded decoded (signingKey_eq_ok chosen).1
    rw [written]
    refine ⟨pair.1, (builder.unsigned funding.coins outputs).sighash tools.crypto place
      funding.coins[place].scriptPubkey, ?_⟩
    simp only [signedInput, buildScriptSig, pubkey, List.length_cons, List.length_append,
      List.Vector.toList_length, List.length_nil]
    omega

theorem size_le_largestSize (funds : builder.fund available = .ok funding)
    (low : LowSignatures tools.signEcdsa) (built : build tools builder available = .ok tx) :
    tx.serializedSize ≤ builder.largestSize funding := by
  obtain ⟨-, size, count, inputs⟩ := built_fields funds built
  have short : (tx.inputs.map fun input => 48 + input.scriptSig.length).sum ≤
      tx.inputs.length * 155 := by
    have bounded := List.sum_le_card_nsmul
      (tx.inputs.map fun input => 48 + input.scriptSig.length) 155 ?_
    · simpa using bounded
    · intro length member
      obtain ⟨input, present, rfl⟩ := List.mem_map.mp member
      obtain ⟨secret, digest, sized⟩ := inputs input present
      have := low secret digest
      omega
  omega

def longSignature (_ : ByteVector 32) (_ : Hash) : SerializedSignature :=
  ⟨List.replicate 71 0, by simp⟩

theorem size_eq_largestSize (funds : builder.fund available = .ok funding)
    (built : build { tools with signEcdsa := longSignature } builder available = .ok tx) :
    tx.serializedSize = builder.largestSize funding := by
  obtain ⟨-, size, count, inputs⟩ := built_fields funds built
  have full : (tx.inputs.map fun input => 48 + input.scriptSig.length).sum =
      tx.inputs.length * 155 := by
    have constant := List.sum_eq_card_nsmul
      (tx.inputs.map fun input => 48 + input.scriptSig.length) 155 ?_
    · simpa using constant
    · intro length member
      obtain ⟨input, present, rfl⟩ := List.mem_map.mp member
      obtain ⟨secret, digest, sized⟩ := inputs input present
      rw [sized]
      rfl
  omega

theorem fee_of_change (funded : Funded builder available funding)
    (worth : dustSatoshis ≤ funding.change) :
    funding.fee.toNat = max (builder.estimatedSize funding * builder.feeRate.toNat)
      builder.minAbsoluteFee.toNat := by
  obtain ⟨dust, whole⟩ := change_eq worth
  have bound := funding.totalInput.toNat_lt
  have fee := congrArg UInt64.toNat funded.charged
  rw [toNat_estimatedFee] at fee
  unfold estimatedSize
  generalize (txOverhead + funding.coins.length * p2pkhInputSize + builder.outputBytes) *
    builder.feeRate.toNat = charge at fee ⊢
  omega

theorem suffices_iff (funded : Funded builder available funding)
    (values : tx.outputs.map TxOutput.value = builder.amounts ++
      (if dustSatoshis ≤ funding.change then [funding.change] else [])) :
    max builder.minAbsoluteFee.toNat
        (builder.feeRate.toNat * builder.largestSize funding) ≤ paid funding.coins tx ↔
      FeeSuffices builder funding := by
  rw [paid_eq funded values]
  unfold FeeSuffices
  split
  · rename_i worth
    rw [fee_of_change funded worth, Nat.mul_comm (builder.estimatedSize funding), max_le_iff,
      le_max_iff, le_max_iff]
    constructor
    · rintro ⟨-, below | below⟩
      · rcases Nat.eq_zero_or_pos builder.feeRate.toNat with free | priced
        · right
          rw [free, Nat.zero_mul]
          exact Nat.zero_le _
        · exact .inl (Nat.le_of_mul_le_mul_left below priced)
      · exact .inr below
    · rintro (below | below)
      · exact ⟨.inr le_rfl, .inl (Nat.mul_le_mul_left _ below)⟩
      · exact ⟨.inr le_rfl, .inr below⟩
  · rfl

/-- The estimate falls short of the encoding when no script has more than `2 ^ 32 - 1` bytes. -/
theorem estimatedSize_lt_largestSize
    (short : ∀ entry ∈ builder.recipientScripts, entry.1.length < 2 ^ 32)
    (worth : dustSatoshis ≤ funding.change) :
    builder.estimatedSize funding < builder.largestSize funding := by
  have scripts : (builder.recipientScripts.map fun entry =>
      8 + varintLen entry.1.length + entry.1.length).sum ≤
        (builder.recipientScripts.map fun entry => 16 + entry.1.length).sum := by
    refine List.sum_le_sum fun entry member => ?_
    have := short entry member
    unfold varintLen
    split
    · omega
    · split
      · omega
      · rw [if_pos (by omega)]
        omega
  have recipients : (builder.recipients.map fun _ => 8 + varintLen 25 + 25).sum =
      builder.recipients.length * 34 := by
    simp [varintLen]
  unfold estimatedSize largestSize outputBytes txOverhead p2pkhInputSize
  rw [if_pos worth, recipients]
  have tag : varintLen 25 = 1 := rfl
  omega

/-- Whatever low signatures its inputs carry, a payment leaves at least the smallest fee, and its
rate for each byte of its encoding, exactly when the smallest fee pays for the encoding or, where
there is no change output, the coins leave as much over the payments. -/
theorem built_fee_suffices_iff (funds : builder.fund available = .ok funding)
    (built : build tools builder available = .ok tx) :
    (∀ sign, LowSignatures sign → ∀ signed,
      build { tools with signEcdsa := sign } builder available = .ok signed →
        max builder.minAbsoluteFee.toNat (builder.feeRate.toNat * signed.serializedSize) ≤
          paid funding.coins signed) ↔
      FeeSuffices builder funding := by
  have funded := funded_of_fund funds
  constructor
  · intro suffices'
    obtain ⟨signed, again⟩ := exists_build longSignature built
    have enough := suffices' longSignature (fun _ _ => by simp [longSignature]) signed again
    rw [size_eq_largestSize funds again] at enough
    exact (suffices_iff funded (built_fields funds again).1).mp enough
  · intro condition sign low signed again
    refine le_trans ?_ ((suffices_iff funded (built_fields funds again).1).mpr condition)
    exact max_le_max le_rfl (Nat.mul_le_mul_left _ (size_le_largestSize funds low again))

namespace Sample

def rich : Utxo := { coin compressed with value := 100000 }

/-- A payment at the default rate, with a smallest fee. -/
def priced (minAbsoluteFee : UInt64) : TxBuilder :=
  { TxBuilder.new with
    recipientScripts := [([], 1000)], minAbsoluteFee := minAbsoluteFee, wifKeys := ["key"] }

end Sample

theorem built_fee_suffices_of_floor :
    FeeSuffices (Sample.priced 3000) ⟨1000, [Sample.rich], 3000, 100000⟩ ∧
      ∀ sign, LowSignatures sign → ∀ signed,
        build { Sample.toolset with signEcdsa := sign } (Sample.priced 3000) [Sample.rich] =
          .ok signed →
        max 3000 (10 * signed.serializedSize) ≤ paid [Sample.rich] signed := by
  have runs : (Sample.priced 3000).fund [Sample.rich] =
        .ok ⟨1000, [Sample.rich], 3000, 100000⟩ ∧
      (build Sample.toolset (Sample.priced 3000) [Sample.rich]).toOption.isSome := by
    decide +kernel
  obtain ⟨funds, succeeds⟩ := runs
  have enough : FeeSuffices (Sample.priced 3000) ⟨1000, [Sample.rich], 3000, 100000⟩ :=
    .inr (by decide)
  cases built : build Sample.toolset (Sample.priced 3000) [Sample.rich] with
  | error error =>
      rw [built] at succeeds
      cases succeeds
  | ok tx => exact ⟨enough, (built_fee_suffices_iff funds built).mpr enough⟩

/-- A payment at the default rate of 10 satoshis per byte pays 2000 satoshis for 242 bytes, which
the mempool takes for 8 satoshis per byte. -/
theorem default_rate_underpaid :
    ((build Sample.toolset (Sample.priced 1000) [Sample.rich]).map fun tx =>
        (paid [Sample.rich] tx, tx.serializedSize,
          feeRateOf (UInt64.ofNat (paid [Sample.rich] tx)) tx.serializedSize)) =
      .ok (2000, 242, 8) := by
  decide +kernel

end TxBuilder

end Vtorrent
