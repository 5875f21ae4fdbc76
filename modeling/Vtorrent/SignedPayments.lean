import Vtorrent.HashTimeLock
import Vtorrent.PaymentBuilder

/-!
# What a signed payment unlocks

A key that matches the script of a coin signs an input that the script engine accepts.  The
builder falls back on its only key for a coin that the key does not match, and the engine refuses
that input.
-/

namespace Vtorrent

open Script Engine Checked

theorem hashScriptPubkey_eq (hash : ByteVector 20) :
    hashScriptPubkey hash = (assemble (payToKey hash.toList)).bytes := by
  simp [hashScriptPubkey, Address.p2pkhScriptPubkey, assemble, payToKey, Item.encode]

theorem hashScriptPubkey_injective : Function.Injective hashScriptPubkey := by
  intro first second same
  have bytes : first.toList = second.toList := by
    simpa [hashScriptPubkey, Address.p2pkhScriptPubkey] using same
  exact List.Vector.toList_injective bytes

theorem execute_hashScriptPubkey {crypto : Crypto} {env : ScriptEnv} {hash : ByteVector 20}
    {sig pubkey : Bytes} (shortSig : sig.length ≤ 75) (shortKey : pubkey.length ≤ 75) :
    execute crypto env ⟨TxBuilder.buildScriptSig sig pubkey⟩ ⟨hashScriptPubkey hash⟩ = .ok () ↔
      crypto.hash160 pubkey = hash ∧
        crypto.signatureValid env.txHash sig pubkey = true := by
  have sigItems : ∀ item ∈ [sig, pubkey].map Item.pushData, item.Encodable := by
    simp [Item.Encodable, shortSig, shortKey]
  have keyItems : ∀ item ∈ payToKey hash.toList, item.Encodable := by
    simp [payToKey, Item.Encodable]
  have sigScript : (⟨TxBuilder.buildScriptSig sig pubkey⟩ : Script) =
      assemble ([sig, pubkey].map Item.pushData) := by
    simp [TxBuilder.buildScriptSig, assemble, Item.encode]
  have pushed : runSig crypto env ⟨TxBuilder.buildScriptSig sig pubkey⟩ =
      .ok ⟨[pubkey, sig], []⟩ := by
    rw [sigScript]
    exact runSig_pushes (validate_assemble sigItems) (items_assemble sigItems)
      (by simp [maxScriptExecSteps])
  have ordinary : isP2sh ⟨hashScriptPubkey hash⟩ = false := by
    simp [isP2sh, hashScriptPubkey, Address.p2pkhScriptPubkey]
  rw [execute_eq_ok ordinary, pushed]
  have keyScript : (⟨hashScriptPubkey hash⟩ : Script) = assemble (payToKey hash.toList) := by
    rw [hashScriptPubkey_eq]
  rw [keyScript]
  constructor
  · rintro ⟨_, final, ⟨⟩, ran, top, rest, final_eq, truthy⟩
    obtain ⟨after, items, rfl⟩ := (run_onStack keyItems (payToKey_onStack _)
      (by simp [payToKey, maxScriptExecSteps])).mp ran
    obtain ⟨key, signed, below, stack, hashed, -, rfl⟩ := stackItems_payToKey.mp items
    cases stack
    cases final_eq
    rw [isTrue_boolToBytes] at truthy
    exact ⟨List.Vector.toList_injective hashed, truthy⟩
  · rintro ⟨rfl, valid⟩
    refine ⟨⟨[pubkey, sig], []⟩, ⟨[boolToBytes true], []⟩, rfl, ?_, _, _, rfl, rfl⟩
    refine (run_onStack keyItems (payToKey_onStack _)
      (by simp [payToKey, maxScriptExecSteps])).mpr ⟨_, ?_, rfl⟩
    refine stackItems_payToKey.mpr ⟨pubkey, sig, [], rfl, rfl, by decide, ?_⟩
    rw [valid]

namespace TxBuilder

variable {tools : WalletCrypto} {keys : List (ByteVector 32 × Bytes)} {builder : TxBuilder}
  {available coins : List Utxo} {tx final : Transaction}

theorem withSubscript_modify (tx : Transaction) (index : Nat) (scriptSig : Bytes)
    (signed : Nat) (subscript : Bytes) :
    ({ tx with inputs := tx.inputs.modify index fun input =>
        { input with scriptSig := scriptSig } } : Transaction).withSubscript signed subscript =
      tx.withSubscript signed subscript := by
  unfold Transaction.withSubscript
  congr 1
  refine List.ext_getElem? fun place => ?_
  simp only [List.getElem?_mapIdx, List.getElem?_modify]
  cases tx.inputs[place]? with
  | none => rfl
  | some input =>
      by_cases here : index = place
      · simp [here]
      · simp [here]

/-- The input that spends a coin, signed with the coin's key. -/
def signedInput (tools : WalletCrypto) (tx : Transaction) (index : Nat) (utxo : Utxo)
    (pair : ByteVector 32 × Bytes) (input : TxInput) : TxInput :=
  let digest := tx.sighash tools.crypto index utxo.scriptPubkey
  { input with scriptSig := buildScriptSig ((tools.signEcdsa pair.1 digest).der ++ [0x01]) pair.2 }

theorem signedInput_congr {other : Transaction}
    (same : ∀ place script, other.withSubscript place script = tx.withSubscript place script) :
    signedInput tools other = signedInput tools tx := by
  funext index utxo pair input
  unfold signedInput Transaction.sighash
  rw [same]

/-- What signing leaves and what it writes: every signature is over the transaction at the
start. -/
structure Signed (tools : WalletCrypto) (keys : List (ByteVector 32 × Bytes)) (index : Nat)
    (coins : List Utxo) (tx final : Transaction) : Prop where
  frame : final = { tx with inputs := final.inputs }
  length : final.inputs.length = tx.inputs.length
  subscript : ∀ place script, final.withSubscript place script = tx.withSubscript place script
  before : ∀ place, place < index → final.inputs[place]? = tx.inputs[place]?
  signs : ∀ place utxo, coins[place]? = some utxo → ∃ pair,
    signingKey tools keys utxo = .ok pair ∧ tools.secretKeyFromSlice pair.1 = .ok () ∧
      final.inputs[index + place]? =
        tx.inputs[index + place]?.map (signedInput tools tx (index + place) utxo pair)

theorem signInput_eq_ok {secret : ByteVector 32} {digest : Hash} {sig : Bytes} :
    signInput tools secret digest = .ok sig ↔
      tools.secretKeyFromSlice secret = .ok () ∧
        sig = (tools.signEcdsa secret digest).der ++ [0x01] := by
  simp only [signInput, bind_eq_ok, mapError_eq_ok, pure_eq_ok]
  constructor
  · rintro ⟨_, valid, rfl⟩
    exact ⟨valid, rfl⟩
  · rintro ⟨valid, rfl⟩
    exact ⟨(), valid, rfl⟩

theorem signed_of_signInputs {index : Nat}
    (ran : signInputs tools keys index coins tx = .ok final) :
    Signed tools keys index coins tx final := by
  induction coins generalizing index tx with
  | nil =>
      cases ran
      exact ⟨rfl, rfl, fun _ _ => rfl, fun _ _ => rfl, by simp⟩
  | cons utxo coins ih =>
      obtain ⟨pair, chosen, ran⟩ := bind_eq_ok.mp ran
      obtain ⟨sig, signed, ran⟩ := bind_eq_ok.mp ran
      obtain ⟨valid, rfl⟩ := signInput_eq_ok.mp signed
      have rest := ih ran
      have same := withSubscript_modify tx index (buildScriptSig
        ((tools.signEcdsa pair.1 (tx.sighash tools.crypto index utxo.scriptPubkey)).der ++
          [0x01]) pair.2)
      refine ⟨rest.frame, ?_, fun place script => ?_, fun place early => ?_,
        fun place other found => ?_⟩
      · rw [rest.length, List.length_modify]
      · rw [rest.subscript, same]
      · exact (rest.before place (by omega)).trans
          (List.getElem?_modify_ne _ _ (by omega))
      · cases place with
        | zero =>
            cases found
            refine ⟨pair, chosen, valid, ?_⟩
            rw [Nat.add_zero, rest.before index (by omega), List.getElem?_modify_eq]
            rfl
        | succ place =>
            obtain ⟨pair', chosen', valid', written⟩ := rest.signs place other found
            refine ⟨pair', chosen', valid', ?_⟩
            rw [← Nat.add_assoc, Nat.add_right_comm, written, signedInput_congr same]
            exact congrArg (Option.map _) (List.getElem?_modify_ne _ _ (by omega))

theorem build_eq_ok : build tools builder available = .ok tx ↔
    (builder.recipients.isEmpty && builder.recipientScripts.isEmpty) = false ∧
      builder.wifKeys.isEmpty = false ∧ ∃ keys funding outputs,
        builder.wifKeys.mapM (decodeKey tools) = .ok keys ∧
        builder.fund available = .ok funding ∧
        buildOutputs tools builder (builder.changeAddressFor tools keys) funding.change =
          .ok outputs ∧
        signInputs tools keys 0 funding.coins (builder.unsigned funding.coins outputs) =
          .ok tx := by
  simp only [build, bind_eq_ok, rejectIf_eq_ok]
  constructor
  · rintro ⟨_, someone, _, keyed, keys, decoded, funding, funds, outputs, paid, signed⟩
    exact ⟨someone, keyed, keys, funding, outputs, decoded, funds, paid, signed⟩
  · rintro ⟨someone, keyed, keys, funding, outputs, decoded, funds, paid, signed⟩
    exact ⟨(), someone, (), keyed, keys, decoded, funding, funds, outputs, paid, signed⟩

theorem decodeKey_eq_ok {wif : String} {pair : ByteVector 32 × Bytes} :
    decodeKey tools wif = .ok pair ↔ ∃ key, PrivateKey.fromWif tools wif = .ok key ∧
      tools.secretKeyFromSlice key.inner = .ok () ∧
      pair = (key.inner, (tools.serializedKey key.inner).toList) := by
  simp only [decodeKey, bind_eq_ok, mapError_eq_ok, pure_eq_ok]
  constructor
  · rintro ⟨key, decoded, _, valid, rfl⟩
    exact ⟨key, decoded, valid, rfl⟩
  · rintro ⟨key, decoded, valid, rfl⟩
    exact ⟨key, decoded, (), valid, rfl⟩

theorem pubkey_of_decoded {wifs : List String} (decoded : wifs.mapM (decodeKey tools) = .ok keys)
    {pair : ByteVector 32 × Bytes} (member : pair ∈ keys) :
    pair.2 = (tools.serializedKey pair.1).toList := by
  obtain ⟨wif, -, found⟩ := exists_of_forall₂ (mapM_eq_ok.mp decoded) member
  obtain ⟨key, -, -, rfl⟩ := decodeKey_eq_ok.mp found
  rfl

theorem signingKey_eq_ok {utxo : Utxo} {pair : ByteVector 32 × Bytes}
    (chosen : signingKey tools keys utxo = .ok pair) :
    pair ∈ keys ∧ (pubkeyToP2pkhScript tools pair.2 = utxo.scriptPubkey ∨ keys = [pair]) := by
  unfold signingKey at chosen
  split at chosen
  · rename_i found
    cases chosen
    exact ⟨List.mem_of_find?_eq_some found, .inl (by simpa using List.find?_some found)⟩
  · cases chosen
    exact ⟨List.mem_singleton_self _, .inr rfl⟩
  · cases chosen

end TxBuilder

/-- A signature by a valid secret verifies under its public key. -/
structure WalletCrypto.Correct (tools : WalletCrypto) : Prop where
  encodes : ∀ secret digest, tools.secretKeyFromSlice secret = .ok () →
    tools.crypto.signatureFromDer (tools.signEcdsa secret digest).der = true
  derives : ∀ secret, tools.secretKeyFromSlice secret = .ok () →
    tools.crypto.publicKeyFromSlice (tools.serializedKey secret).toList = true
  verifies : ∀ secret digest, tools.secretKeyFromSlice secret = .ok () →
    tools.crypto.verifyEcdsa digest (tools.signEcdsa secret digest).der
      (tools.serializedKey secret).toList = true

theorem WalletCrypto.Correct.signatureValid {tools : WalletCrypto} (correct : tools.Correct)
    {secret : ByteVector 32} (valid : tools.secretKeyFromSlice secret = .ok ())
    (digest : Hash) :
    tools.crypto.signatureValid digest ((tools.signEcdsa secret digest).der ++ [0x01])
      (tools.serializedKey secret).toList = true := by
  simp [Crypto.signatureValid, correct.encodes secret digest valid, correct.derives secret valid,
    correct.verifies secret digest valid]

namespace TxBuilder

variable {tools : WalletCrypto} {keys : List (ByteVector 32 × Bytes)} {builder : TxBuilder}
  {available coins : List Utxo} {tx : Transaction}

def Spends (tx : Transaction) (coins : List Utxo) : Prop :=
  tx.inputs.map (fun input => (input.prevTxid, input.prevVout)) =
    coins.map fun utxo => (utxo.txid, UInt32.ofNat utxo.vout)

/-- The script engine accepts each input against the script of its coin, in every block. -/
def Unlocks (crypto : Crypto) (tx : Transaction) (coins : List Utxo) : Prop :=
  ∀ index input utxo, tx.inputs[index]? = some input → coins[index]? = some utxo →
    ∀ context, execute crypto (scriptEnvOf crypto context tx index input utxo)
      ⟨input.scriptSig⟩ ⟨utxo.scriptPubkey⟩ = .ok ()

/-- If there is only one key, every coin pays to it. -/
def SoleKeyMatches (tools : WalletCrypto) (builder : TxBuilder) (coins : List Utxo) : Prop :=
  ∀ wif key, builder.wifKeys = [wif] → PrivateKey.fromWif tools wif = .ok key →
    ∀ utxo ∈ coins, utxo.scriptPubkey =
      pubkeyToP2pkhScript tools (tools.serializedKey key.inner).toList

/-- A signed input is accepted exactly when the coin pays to the key it is signed with. -/
theorem execute_signedInput (correct : tools.Correct) {pair : ByteVector 32 × Bytes}
    (valid : tools.secretKeyFromSlice pair.1 = .ok ())
    (pubkey : pair.2 = (tools.serializedKey pair.1).toList) {utxo : Utxo}
    {hash : ByteVector 20} (standard : utxo.scriptPubkey = hashScriptPubkey hash)
    {env : ScriptEnv} {index : Nat} {input : TxInput}
    (hashed : env.txHash = tx.sighash tools.crypto index utxo.scriptPubkey) :
    execute tools.crypto env ⟨(signedInput tools tx index utxo pair input).scriptSig⟩
        ⟨utxo.scriptPubkey⟩ = .ok () ↔
      utxo.scriptPubkey = pubkeyToP2pkhScript tools pair.2 := by
  have short := (tools.signEcdsa pair.1
    (tx.sighash tools.crypto index utxo.scriptPubkey)).short
  unfold signedInput
  dsimp only
  rw [standard] at hashed short ⊢
  rw [execute_hashScriptPubkey (by simp; omega) (by simp [pubkey]), hashed, pubkey,
    correct.signatureValid valid, pubkeyToP2pkhScript, hashScriptPubkey_injective.eq_iff]
  exact ⟨fun matched => matched.1.symm, fun matched => ⟨matched.symm, rfl⟩⟩

section Inputs

variable {outputs : List TxOutput}
  (signed : Signed tools keys 0 coins (builder.unsigned coins outputs) tx)

include signed

theorem Signed.input {place : Nat} {utxo : Utxo} (found : coins[place]? = some utxo) :
    ∃ pair, signingKey tools keys utxo = .ok pair ∧ tools.secretKeyFromSlice pair.1 = .ok () ∧
      tx.inputs[place]? = some (signedInput tools (builder.unsigned coins outputs) place utxo pair
        ⟨utxo.txid, UInt32.ofNat utxo.vout, [], builder.sequence⟩) := by
  obtain ⟨pair, chosen, valid, written⟩ := signed.signs place utxo found
  refine ⟨pair, chosen, valid, ?_⟩
  rw [Nat.zero_add] at written
  rw [written]
  simp [unsigned, found]

theorem Signed.length_inputs : tx.inputs.length = coins.length := by
  rw [signed.length]
  simp [unsigned]

theorem Signed.spends : Spends tx coins := by
  refine List.ext_getElem? fun place => ?_
  rw [List.getElem?_map, List.getElem?_map]
  cases found : coins[place]? with
  | none =>
      rw [List.getElem?_eq_none_iff] at found
      rw [List.getElem?_eq_none (by rw [signed.length_inputs]; exact found)]
      rfl
  | some utxo =>
      obtain ⟨pair, -, -, written⟩ := signed.input found
      rw [written]
      rfl

theorem Signed.unlocks_iff (correct : tools.Correct)
    (pubkeys : ∀ pair ∈ keys, pair.2 = (tools.serializedKey pair.1).toList)
    (standard : ∀ utxo ∈ coins, ∃ hash, utxo.scriptPubkey = hashScriptPubkey hash) :
    Unlocks tools.crypto tx coins ↔ ∀ utxo ∈ coins, ∀ pair,
      signingKey tools keys utxo = .ok pair →
        utxo.scriptPubkey = pubkeyToP2pkhScript tools pair.2 := by
  have accepted : ∀ (place : Nat) (utxo : Utxo) (input : TxInput) (context : BlockContext),
      coins[place]? = some utxo → tx.inputs[place]? = some input → ∃ pair,
        signingKey tools keys utxo = .ok pair ∧
        (execute tools.crypto (scriptEnvOf tools.crypto context tx place input utxo)
            ⟨input.scriptSig⟩ ⟨utxo.scriptPubkey⟩ = .ok () ↔
          utxo.scriptPubkey = pubkeyToP2pkhScript tools pair.2) := by
    intro place utxo input context found present
    obtain ⟨pair, chosen, valid, written⟩ := signed.input found
    obtain ⟨hash, paysTo⟩ := standard utxo (List.mem_of_getElem? found)
    rw [present, Option.some.injEq] at written
    subst written
    refine ⟨pair, chosen, execute_signedInput correct valid
      (pubkeys pair (signingKey_eq_ok chosen).1) paysTo ?_⟩
    simp only [scriptEnvOf, Transaction.sighash, signed.subscript]
  constructor
  · intro unlocks utxo member pair chosen
    obtain ⟨place, found⟩ := List.mem_iff_getElem?.mp member
    obtain ⟨_, -, -, written⟩ := signed.input found
    let context : BlockContext := ⟨zeroHash, 0, 0, 0, false, zeroHash, false⟩
    obtain ⟨pair', chosen', iff⟩ := accepted place utxo _ context found written
    cases chosen.symm.trans chosen'
    exact iff.mp (unlocks place _ utxo written found context)
  · intro paysTo place input utxo present found context
    obtain ⟨pair, chosen, iff⟩ := accepted place utxo input context found present
    exact iff.mpr (paysTo utxo (List.mem_of_getElem? found) pair chosen)

end Inputs

theorem soleKeyMatches_iff (decoded : builder.wifKeys.mapM (decodeKey tools) = .ok keys)
    (signable : ∀ utxo ∈ coins, ∃ pair, signingKey tools keys utxo = .ok pair) :
    (∀ utxo ∈ coins, ∀ pair, signingKey tools keys utxo = .ok pair →
        utxo.scriptPubkey = pubkeyToP2pkhScript tools pair.2) ↔
      SoleKeyMatches tools builder coins := by
  have pairs := mapM_eq_ok.mp decoded
  constructor
  · intro paysTo wif key sole found utxo member
    rw [sole, List.forall₂_cons_left_iff] at pairs
    obtain ⟨pair, rest, decodes, none, rfl⟩ := pairs
    obtain rfl := List.forall₂_nil_left_iff.mp none
    obtain ⟨key', found', -, rfl⟩ := decodeKey_eq_ok.mp decodes
    cases found.symm.trans found'
    obtain ⟨pair, chosen⟩ := signable utxo member
    obtain rfl := List.mem_singleton.mp (signingKey_eq_ok chosen).1
    exact paysTo utxo member _ chosen
  · intro sole utxo member pair chosen
    obtain ⟨-, paysTo | only⟩ := signingKey_eq_ok chosen
    · exact paysTo.symm
    · rw [only, List.forall₂_cons_right_iff] at pairs
      obtain ⟨wif, rest, decodes, none, wifs⟩ := pairs
      rw [List.forall₂_nil_right_iff.mp none] at wifs
      obtain ⟨key, found, -, rfl⟩ := decodeKey_eq_ok.mp decodes
      exact sole wif key wifs found utxo member

/-- When the coins offered pay to key hashes, the inputs of a payment that was built unlock the
coins they spend, in every block, exactly when the coins pay to the builder's key if it has only
one. -/
theorem built_inputs_unlock_iff (correct : tools.Correct)
    (standard : ∀ utxo ∈ available, ∃ hash, utxo.scriptPubkey = hashScriptPubkey hash)
    (built : build tools builder available = .ok tx) :
    ∃ funding, builder.fund available = .ok funding ∧ Spends tx funding.coins ∧
      (Unlocks tools.crypto tx funding.coins ↔
        SoleKeyMatches tools builder funding.coins) := by
  obtain ⟨-, -, keys, funding, outputs, decoded, funds, -, ran⟩ := build_eq_ok.mp built
  have signed := signed_of_signInputs ran
  have offered := (funded_of_fund funds).available
  refine ⟨funding, funds, signed.spends, ?_⟩
  rw [signed.unlocks_iff correct (fun pair member => pubkey_of_decoded decoded member)
    (fun utxo member => standard utxo (offered utxo member))]
  refine soleKeyMatches_iff decoded fun utxo member => ?_
  obtain ⟨place, found⟩ := List.mem_iff_getElem?.mp member
  obtain ⟨pair, chosen, -⟩ := signed.input found
  exact ⟨pair, chosen⟩

namespace Sample

/-- One text is a key without the byte that asks for the compressed form, and all others are
addresses. -/
def toolset : WalletCrypto where
  crypto := Regtest.crypto
  decodeBase58 := fun text =>
    let payload := if text = "key" then secretKeyPrefix :: List.replicate 32 1
      else pubkeyAddressPrefix :: List.replicate 20 1
    some (payload ++ Regtest.crypto.checksum payload)
  secretKeyFromSlice := fun _ => .ok ()
  serializedKey := fun secret => ⟨2 :: secret.toList, by simp⟩
  signEcdsa := fun _ _ => ⟨List.replicate 71 1, by simp⟩

theorem toolset_correct : toolset.Correct := ⟨fun _ _ _ => rfl, fun _ _ => rfl, fun _ _ _ => rfl⟩

/-- A coin of a thousand satoshis that pays to a key. -/
def coin (pubkey : Bytes) : Utxo where
  txid := zeroHash
  vout := 0
  value := 1000
  scriptPubkey := hashScriptPubkey (toolset.crypto.hash160 pubkey)
  height := 1
  timestamp := 0

def payment : TxBuilder :=
  { TxBuilder.new with recipientScripts := [([], 1000)], feeRate := 0, wifKeys := ["key"] }

def compressed : Bytes := 2 :: List.replicate 32 1

def uncompressed : Bytes := 4 :: List.replicate 64 1

def context : BlockContext := ⟨zeroHash, 1, 0, 0, false, zeroHash, false⟩

end Sample

theorem built_inputs_unlock_compressed : ∃ tx,
    build Sample.toolset Sample.payment [Sample.coin Sample.compressed] = .ok tx ∧
      Spends tx [Sample.coin Sample.compressed] ∧
      Unlocks Sample.toolset.crypto tx [Sample.coin Sample.compressed] := by
  have runs : (build Sample.toolset Sample.payment
        [Sample.coin Sample.compressed]).toOption.isSome ∧
      (Sample.payment.fund [Sample.coin Sample.compressed]).toOption.map Funding.coins =
        some [Sample.coin Sample.compressed] ∧
      (PrivateKey.fromWif Sample.toolset "key").toOption.map PrivateKey.inner =
        some (List.Vector.replicate 32 1) := by
    decide +kernel
  obtain ⟨succeeds, taken, decodes⟩ := runs
  cases built : build Sample.toolset Sample.payment [Sample.coin Sample.compressed] with
  | error error =>
      rw [built] at succeeds
      cases succeeds
  | ok tx =>
      obtain ⟨funding, funds, spends, unlocks⟩ := built_inputs_unlock_iff
        Sample.toolset_correct (by simp [Sample.coin]) built
      rw [funds] at taken
      rw [Option.some.inj taken] at spends unlocks
      refine ⟨tx, rfl, spends, unlocks.mpr fun wif key only found utxo member => ?_⟩
      cases only
      rw [found] at decodes
      rw [List.mem_singleton.mp member, Option.some.inj decodes]
      rfl

/-- A coin that pays to the uncompressed form of the builder's only key is spent by an input that
the engine refuses. -/
theorem uncompressed_coin_not_unlocked :
    ((build Sample.toolset Sample.payment [Sample.coin Sample.uncompressed]).map fun tx =>
      tx.inputs.map fun input =>
        execute Sample.toolset.crypto
          (scriptEnvOf Sample.toolset.crypto Sample.context tx 0 input
            (Sample.coin Sample.uncompressed))
          ⟨input.scriptSig⟩ ⟨(Sample.coin Sample.uncompressed).scriptPubkey⟩) =
      .ok [.error .verifyFailed] := by
  decide +kernel

end TxBuilder

end Vtorrent
