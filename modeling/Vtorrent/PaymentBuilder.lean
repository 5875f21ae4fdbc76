import Vtorrent.AtomicSwap

/-!
# Building and signing payments

The wallet's builder decodes its keys, takes the largest coins until they cover the payments and
an estimated fee, pays the rest back as change, and signs one input after the other.
-/

namespace Vtorrent

/-- The `Display` text of an error. -/
def CoreError.message : CoreError → String
  | .invalidAddress reason => "Invalid address: " ++ reason
  | .invalidWif reason => "Invalid WIF key: " ++ reason
  | .checksumMismatch => "Checksum mismatch"
  | .secp256k1 reason => "Secp256k1 error: " ++ reason

inductive WalletError where
  | insufficientFunds (available required : UInt64)
  | signing (reason : String)
  | invalidAddress (reason : String)
  | buildError (reason : String)
  deriving DecidableEq

/-- A signature in DER form, as `serialize_der` returns it. -/
structure SerializedSignature where
  der : Bytes
  short : der.length ≤ 72
  deriving DecidableEq

/-- The third-party functions the wallet calls. -/
structure WalletCrypto where
  crypto : Crypto
  /-- `bs58::decode` -/
  decodeBase58 : String → Option Bytes
  /-- `SecretKey::from_slice`, with the text of its error. -/
  secretKeyFromSlice : ByteVector 32 → Except String Unit
  /-- The compressed form of `PublicKey::from_secret_key`. -/
  serializedKey : ByteVector 32 → ByteVector 33
  /-- `sign_ecdsa` -/
  signEcdsa : ByteVector 32 → Hash → SerializedSignature

structure PrivateKey where
  inner : ByteVector 32
  compressed : Bool

def secretKeyPrefix : UInt8 := 198

namespace PrivateKey

variable (tools : WalletCrypto)

def fromBytes (bytes : ByteVector 32) (compressed : Bool) : Except CoreError PrivateKey := do
  (tools.secretKeyFromSlice bytes).mapError CoreError.secp256k1
  pure ⟨bytes, compressed⟩

def fromWif (wif : String) : Except CoreError PrivateKey :=
  match tools.decodeBase58 wif with
  | none => .error (.invalidWif wif)
  | some decoded =>
      if decoded.length < 33 then .error (.invalidWif "Too short")
      else
        let payload := decoded.take (decoded.length - 4)
        if decoded.drop (decoded.length - 4) ≠ tools.crypto.checksum payload then
          .error .checksumMismatch
        else
          let version := payload.headD 0
          if version ≠ secretKeyPrefix ∧ version ≠ 128 then
            .error (.invalidWif ("Unsupported WIF version byte " ++ toString version))
          else
            let keyBytes := payload.tail
            let compressed := decide (keyBytes.length = 33 ∧ keyBytes[32]? = some 0x01)
            let raw := if compressed then keyBytes.take 32 else keyBytes
            if sized : raw.length = 32 then fromBytes tools ⟨raw, sized⟩ compressed
            else .error (.invalidWif ("Invalid key length " ++ toString raw.length))

end PrivateKey

def Address.p2pkhScriptPubkey (address : Address) : Bytes :=
  [0x76, 0xa9, 0x14] ++ address.hash.toList ++ [0x88, 0xac]

/-- `p2pkh_script_pubkey` of a hash. -/
def hashScriptPubkey (hash : ByteVector 20) : Bytes := Address.p2pkhScriptPubkey ⟨hash, 0⟩

def varintLen (length : Nat) : Nat :=
  if length < 0xfd then 1
  else if length ≤ 0xffff then 3
  else if length ≤ 0xffffffff then 5
  else 9

def checkedSum (overflow : WalletError) : UInt64 → List UInt64 → Except WalletError UInt64
  | total, [] => .ok total
  | total, value :: values =>
      if total.toNat + value.toNat < 2 ^ 64 then checkedSum overflow (total + value) values
      else .error overflow

theorem checkedSum_eq_ok {overflow : WalletError} {total sum : UInt64} {values : List UInt64}
    (added : checkedSum overflow total values = .ok sum) :
    sum.toNat = total.toNat + (values.map UInt64.toNat).sum := by
  induction values generalizing total with
  | nil =>
      cases added
      simp
  | cons value values ih =>
      unfold checkedSum at added
      split at added
      · rename_i fits
        rw [ih added, UInt64.toNat_add, Nat.mod_eq_of_lt fits, List.map_cons, List.sum_cons]
        omega
      · cases added

structure TxBuilder where
  recipients : List (String × UInt64)
  recipientScripts : List (Bytes × UInt64)
  feeRate : UInt64
  minAbsoluteFee : UInt64
  wifKeys : List String
  changeAddress : Option String
  signalRbf : Bool
  lockTime : UInt32

structure Funding where
  totalSend : UInt64
  coins : List Utxo
  fee : UInt64
  totalInput : UInt64
  deriving DecidableEq

def Funding.change (funding : Funding) : UInt64 :=
  saturatingSub funding.totalInput (saturatingAdd funding.totalSend funding.fee)

namespace TxBuilder

def dustSatoshis : UInt64 := 546
def defaultFeeRate : UInt64 := 10
def p2pkhInputSize : Nat := 147
def txOverhead : Nat := 10

def new : TxBuilder where
  recipients := []
  recipientScripts := []
  feeRate := defaultFeeRate
  minAbsoluteFee := 0
  wifKeys := []
  changeAddress := none
  signalRbf := false
  lockTime := 0

def estimatedFee (feeRate minAbsoluteFee : UInt64) (inputs outputBytes : Nat) : UInt64 :=
  let size := txOverhead + inputs * p2pkhInputSize + outputBytes
  max (UInt64.ofNat (min (size * feeRate.toNat) (2 ^ 64 - 1))) minAbsoluteFee

theorem toNat_estimatedFee (rate minimum : UInt64) (inputs bytes : Nat) :
    (estimatedFee rate minimum inputs bytes).toNat =
      max (min ((txOverhead + inputs * p2pkhInputSize + bytes) * rate.toNat) (2 ^ 64 - 1))
        minimum.toNat := by
  rw [estimatedFee, UInt64.toNat_max, UInt64.toNat_ofNat', Nat.mod_eq_of_lt (by omega)]

def takeCoins (targetSats feeRate minAbsoluteFee : UInt64) (outputBytes : Nat) :
    List Utxo → UInt64 → List Utxo → Except WalletError (List Utxo × UInt64)
  | _, selectedValue, [] => .error (.insufficientFunds selectedValue targetSats)
  | selected, selectedValue, utxo :: candidates =>
      let selected := selected ++ [utxo]
      if selectedValue.toNat + utxo.value.toNat < 2 ^ 64 then
        let selectedValue := selectedValue + utxo.value
        let fee := estimatedFee feeRate minAbsoluteFee selected.length outputBytes
        if saturatingAdd targetSats fee ≤ selectedValue then .ok (selected, fee)
        else takeCoins targetSats feeRate minAbsoluteFee outputBytes selected selectedValue
          candidates
      else .error (.buildError "UTXO value overflow")

def selectCoinsWithOutputSize (utxos : List Utxo) (targetSats feeRate minAbsoluteFee : UInt64)
    (outputBytes : Nat) : Except WalletError (List Utxo × UInt64) :=
  let candidates := (utxos.filter fun utxo => dustSatoshis ≤ utxo.value).insertionSort
    fun first second => second.value ≤ first.value
  takeCoins targetSats feeRate minAbsoluteFee outputBytes [] 0 candidates

def outputBytes (builder : TxBuilder) : Nat :=
  (builder.recipients.map fun _ => 8 + varintLen 25 + 25).sum +
    (builder.recipientScripts.map fun entry =>
      8 + varintLen entry.1.length + entry.1.length).sum +
    8 + varintLen 25 + 25

def amounts (builder : TxBuilder) : List UInt64 :=
  builder.recipients.map Prod.snd ++ builder.recipientScripts.map Prod.snd

def fund (builder : TxBuilder) (available : List Utxo) : Except WalletError Funding := do
  let totalSend ← checkedSum (.buildError "Total send amount overflow") 0 builder.amounts
  let (coins, fee) ← selectCoinsWithOutputSize available totalSend builder.feeRate
    builder.minAbsoluteFee builder.outputBytes
  let totalInput ← checkedSum (.buildError "Total input amount overflow") 0
    (coins.map Utxo.value)
  pure ⟨totalSend, coins, fee, totalInput⟩

section Coins

variable {builder : TxBuilder} {available : List Utxo} {funding : Funding}

theorem takeCoins_eq_ok {target rate minimum value fee : UInt64} {bytes : Nat}
    {selected candidates coins : List Utxo}
    (taken : takeCoins target rate minimum bytes selected value candidates = .ok (coins, fee)) :
    ∃ more, more <+: candidates ∧ coins = selected ++ more ∧
      fee = estimatedFee rate minimum coins.length bytes ∧
      (saturatingAdd target fee).toNat ≤
        value.toNat + (more.map fun utxo => utxo.value.toNat).sum := by
  induction candidates generalizing selected value with
  | nil => cases taken
  | cons utxo candidates ih =>
      unfold takeCoins at taken
      dsimp only at taken
      split at taken
      · rename_i fits
        have sum : (value + utxo.value).toNat = value.toNat + utxo.value.toNat := by
          rw [UInt64.toNat_add, Nat.mod_eq_of_lt fits]
        split at taken
        · rename_i covered
          cases taken
          refine ⟨[utxo], by simp, rfl, rfl, ?_⟩
          rw [UInt64.le_iff_toNat_le, sum] at covered
          simpa using covered
        · obtain ⟨more, first, rfl, charged, covered⟩ := ih taken
          refine ⟨utxo :: more, by simpa using first, by simp, charged, ?_⟩
          rw [sum] at covered
          simp only [List.map_cons, List.sum_cons]
          omega
      · cases taken

structure Funded (builder : TxBuilder) (available : List Utxo) (funding : Funding) : Prop where
  available : ∀ utxo ∈ funding.coins, utxo ∈ available
  sent : funding.totalSend.toNat = (builder.amounts.map UInt64.toNat).sum
  spent : funding.totalInput.toNat = (funding.coins.map fun utxo => utxo.value.toNat).sum
  charged : funding.fee =
    estimatedFee builder.feeRate builder.minAbsoluteFee funding.coins.length builder.outputBytes
  covered : (saturatingAdd funding.totalSend funding.fee).toNat ≤ funding.totalInput.toNat

theorem funded_of_fund (funds : builder.fund available = .ok funding) :
    Funded builder available funding := by
  obtain ⟨totalSend, sent, funds⟩ := Checked.bind_eq_ok.mp funds
  obtain ⟨⟨coins, fee⟩, selected, funds⟩ := Checked.bind_eq_ok.mp funds
  obtain ⟨totalInput, spent, funds⟩ := Checked.bind_eq_ok.mp funds
  cases funds
  obtain ⟨more, first, rfl, charged, covered⟩ := takeCoins_eq_ok selected
  have input : totalInput.toNat = (coins.map fun utxo => utxo.value.toNat).sum := by
    simpa [List.map_map, Function.comp_def] using checkedSum_eq_ok spent
  refine ⟨fun utxo member => ?_, by simpa using checkedSum_eq_ok sent, input, charged, ?_⟩
  · have candidate := first.subset member
    rw [List.mem_insertionSort] at candidate
    exact (List.mem_filter.mp candidate).1
  · rw [input]
    simpa using covered

end Coins

section Signing

variable (tools : WalletCrypto)

/-- `pubkey_to_vtorrent_address`. -/
def pubkeyToVtorrentAddress (pubkey : Bytes) : String :=
  tools.crypto.addressString (tools.crypto.hash160 pubkey) 70

/-- `pubkey_to_p2pkh_script`. -/
def pubkeyToP2pkhScript (pubkey : Bytes) : Bytes :=
  hashScriptPubkey (tools.crypto.hash160 pubkey)

/-- `p2pkh_script_pubkey` of an address. -/
def p2pkhScriptPubkey (address : String) : Except WalletError Bytes := do
  let parsed ← (validateP2pkh tools.crypto tools.decodeBase58 address).mapError fun error =>
    WalletError.invalidAddress (address ++ ": " ++ error.message)
  pure (hashScriptPubkey parsed.hash)

def decodeKey (wif : String) : Except WalletError (ByteVector 32 × Bytes) := do
  let key ← (PrivateKey.fromWif tools wif).mapError fun error =>
    WalletError.signing error.message
  (tools.secretKeyFromSlice key.inner).mapError WalletError.signing
  pure (key.inner, (tools.serializedKey key.inner).toList)

def findKeyForScript (keys : List (ByteVector 32 × Bytes)) (scriptPubkey : Bytes) :
    Option (ByteVector 32 × Bytes) :=
  keys.find? fun pair => pubkeyToP2pkhScript tools pair.2 == scriptPubkey

def signingKey (keys : List (ByteVector 32 × Bytes)) (utxo : Utxo) :
    Except WalletError (ByteVector 32 × Bytes) :=
  match findKeyForScript tools keys utxo.scriptPubkey, keys with
  | some pair, _ => .ok pair
  | none, [pair] => .ok pair
  | none, _ => .error (.buildError ("No signing key matches UTXO " ++
      hexEncode utxo.txid.toList))

def signInput (secret : ByteVector 32) (sighash : Hash) : Except WalletError Bytes := do
  (tools.secretKeyFromSlice secret).mapError WalletError.signing
  pure ((tools.signEcdsa secret sighash).der ++ [0x01])

/-- `<sig> <pubkey>`; both are far below the 255 bytes that the source asserts. -/
def buildScriptSig (sig pubkey : Bytes) : Bytes :=
  UInt8.ofNat sig.length :: sig ++ UInt8.ofNat pubkey.length :: pubkey

def signInputs (keys : List (ByteVector 32 × Bytes)) :
    Nat → List Utxo → Transaction → Except WalletError Transaction
  | _, [], tx => .ok tx
  | index, utxo :: utxos, tx => do
      let sighash := tx.sighash tools.crypto index utxo.scriptPubkey
      let (secret, pubkey) ← signingKey tools keys utxo
      let sig ← signInput tools secret sighash
      signInputs keys (index + 1) utxos { tx with
        inputs := tx.inputs.modify index fun input =>
          { input with scriptSig := buildScriptSig sig pubkey } }

def rejectDust (amount : UInt64) : Except WalletError Unit :=
  rejectIf (amount < dustSatoshis) (WalletError.buildError ("Recipient amount " ++
    toString amount ++ " sat is below the dust threshold " ++ toString dustSatoshis ++ " sat"))

def recipientOutput (recipient : String × UInt64) : Except WalletError TxOutput := do
  rejectDust recipient.2
  let script ← p2pkhScriptPubkey tools recipient.1
  pure ⟨recipient.2, script⟩

def scriptOutput (recipient : Bytes × UInt64) : Except WalletError TxOutput := do
  rejectDust recipient.2
  pure ⟨recipient.2, recipient.1⟩

def changeOutputs (changeAddr : String) (change : UInt64) :
    Except WalletError (List TxOutput) :=
  if dustSatoshis ≤ change then do
    let script ← p2pkhScriptPubkey tools changeAddr
    pure [⟨change, script⟩]
  else .ok []

def buildOutputs (builder : TxBuilder) (changeAddr : String) (change : UInt64) :
    Except WalletError (List TxOutput) := do
  let toAddresses ← builder.recipients.mapM (recipientOutput tools)
  let toScripts ← builder.recipientScripts.mapM scriptOutput
  let changed ← changeOutputs tools changeAddr change
  pure (toAddresses ++ toScripts ++ changed)

def sequence (builder : TxBuilder) : UInt32 :=
  if builder.signalRbf then 0xFFFFFFFD else 0xFFFFFFFF

def unsigned (builder : TxBuilder) (coins : List Utxo) (outputs : List TxOutput) :
    Transaction where
  version := 1
  txType := .standard
  inputs := coins.map fun utxo => ⟨utxo.txid, UInt32.ofNat utxo.vout, [], builder.sequence⟩
  outputs := outputs
  lockTime := builder.lockTime
  claimAddress := none
  claimSignature := none

/-- The address the change is paid to: the one that was set, or that of the first key. -/
def changeAddressFor (builder : TxBuilder) (keys : List (ByteVector 32 × Bytes)) : String :=
  builder.changeAddress.getD (pubkeyToVtorrentAddress tools (keys.headD default).2)

def build (builder : TxBuilder) (available : List Utxo) : Except WalletError Transaction := do
  rejectIf (builder.recipients.isEmpty && builder.recipientScripts.isEmpty)
    (WalletError.buildError "No recipients specified")
  rejectIf builder.wifKeys.isEmpty (WalletError.buildError "No signing keys specified")
  let keys ← builder.wifKeys.mapM (decodeKey tools)
  let funding ← builder.fund available
  let outputs ← buildOutputs tools builder (builder.changeAddressFor tools keys) funding.change
  signInputs tools keys 0 funding.coins (builder.unsigned funding.coins outputs)

end Signing

end TxBuilder

end Vtorrent
