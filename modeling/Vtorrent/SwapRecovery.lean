import Vtorrent.SwapStates

/-!
# The recovery journal

Before funds move, the complete state of a swap is saved in an encrypted record.  A record
may be extended but not replaced: contract terms, prepared transactions and the lineage of
refund replacements are written once.

Encryption and the file system are outside: a file that cannot be read, decrypted or parsed
is an error with its reason, and a directory stands for the key that encrypts its records.
-/

namespace Vtorrent

open Std

inductive RpcError where
  | notFound (reason : String)
  | badRequest (reason : String)
  | unauthorized (reason : String)
  | forbidden (reason : String)
  | internal (reason : String)
  | walletLocked
  | nodeError (reason : String)
deriving DecidableEq

/-- The `Display` text of an error. -/
def RpcError.message : RpcError → String
  | .notFound reason => "Not found: " ++ reason
  | .badRequest reason => "Bad request: " ++ reason
  | .unauthorized reason => "Unauthorized: " ++ reason
  | .forbidden reason => "Forbidden: " ++ reason
  | .internal reason => "Internal error: " ++ reason
  | .walletLocked => "Wallet locked"
  | .nodeError reason => "Node error: " ++ reason

/-! ## Lineage of refund replacements -/

namespace RefundLineage

def maxReplacements : Nat := 16

def bad : RpcError := .badRequest "Invalid VTR refund replacement lineage"

section

variable (crypto : Crypto) (decodeBase58 : String → Option Bytes)

/-- The recorded replacements begin with the older ones. -/
def isPrefix (old new : List VtrRefundReplacement) : Bool :=
  decide (old.length ≤ new.length) && (old.zip new).all fun pair =>
    pair.1.replacesTxid == pair.2.replacesTxid &&
      pair.1.totalFeeSatoshis == pair.2.totalFeeSatoshis &&
      pair.1.approvedAt == pair.2.approvedAt &&
      pair.1.transaction.txid crypto == pair.2.transaction.txid crypto

def validateReplacements (order : SwapOrder) (htlc : Htlc) (funding : Hash) :
    Hash → UInt64 → List VtrRefundReplacement → Except RpcError Unit
  | _, _, [] => pure ()
  | parent, fee, replacement :: replacements =>
      match replacement.transaction.inputs with
      | [input] => do
          rejectIf (replacement.replacesTxid != parent ||
            decide (replacement.totalFeeSatoshis ≤ fee) ||
            decide (replacement.approvedAt.toNat < order.expiry.toNat) ||
            decide (order.vtrAmount < replacement.totalFeeSatoshis) ||
            decide (order.vtrAmount - replacement.totalFeeSatoshis < 546) ||
            input.scriptSig.isEmpty) bad
          let expected ← (htlc.buildRefundTxUnsigned crypto decodeBase58 funding
            replacement.totalFeeSatoshis).mapError fun _ => bad
          let signed : Transaction := { expected with
            inputs := expected.inputs.map fun unsigned =>
              { unsigned with sequence := 0xfffffffd, scriptSig := input.scriptSig } }
          rejectIf (signed.txid crypto != replacement.transaction.txid crypto) bad
          validateReplacements order htlc funding (replacement.transaction.txid crypto)
            replacement.totalFeeSatoshis replacements
      | _ => throw bad

def validate (order : SwapOrder) (swap : SwapState) : Except RpcError Unit :=
  if swap.vtrRefundReplacements.isEmpty then pure ()
  else do
    rejectIf (decide (maxReplacements < swap.vtrRefundReplacements.length)) bad
    let original ← required bad swap.vtrRefundTx
    let funding ← required bad swap.vtrFundingTxid
    rejectIf (swap.orderId != order.orderId || order.hashLock != some swap.hashLock ||
      order.fundingTxid != some funding ||
      swap.vtrRefundTxid != some (original.txid crypto) ||
      original.inputs.length != 1) bad
    match original.outputs with
    | [output] => do
        let taker ← required bad order.takerAddress
        let htlc ← (Htlc.withExpiry crypto decodeBase58 swap.hashLock taker order.makerAddress
          order.expiry order.vtrAmount).mapError fun _ => bad
        rejectIf (decide (order.vtrAmount < output.value)) bad
        validateReplacements crypto decodeBase58 order htlc funding (original.txid crypto)
          (order.vtrAmount - output.value) swap.vtrRefundReplacements
    | _ => throw bad

end

end RefundLineage

/-! ## Records -/

namespace SwapRecovery

structure Record where
  version : Nat
  order : SwapOrder
  swap : Option SwapState
deriving DecidableEq

/-- A record file, or why it cannot be read. -/
abbrev RecordFile := Except String Record

abbrev Directories := ExtTreeMap String (ExtTreeMap String RecordFile)

def failure (message : String) : RpcError := .internal ("Swap recovery: " ++ message)

def directory (directories : Directories) (name : String) : ExtTreeMap String RecordFile :=
  directories[name]?.getD ∅

section

variable (crypto : Crypto) (decodeBase58 : String → Option Bytes)

def identified (tx : Option Transaction) (txid : Option Hash) : Bool :=
  match tx with
  | some tx => some (tx.txid crypto) == txid
  | none => true

def opens (secret : Option Hash) (hashLock : Option Hash) : Bool :=
  match secret with
  | some secret => hashLock == some (crypto.sha256 secret.toList)
  | none => true

def validateRecord (name : String) (record : Record) : Except RpcError Unit := do
  rejectIf (record.version != 1 || name != record.order.key)
    (failure "record version or order identity mismatch")
  rejectIf (!opens crypto record.order.preimage record.order.hashLock)
    (failure "order secret mismatch")
  match record.swap with
  | none => pure ()
  | some swap => do
      rejectIf (!opens crypto swap.preimage (some swap.hashLock))
        (failure "swap secret mismatch")
      rejectIf (swap.orderId != record.order.orderId ||
        some swap.hashLock != record.order.hashLock ||
        swap.vtrFundingTxid != record.order.fundingTxid)
        (failure "inconsistent swap metadata")
      rejectIf (!(identified crypto swap.vtrFundingTx swap.vtrFundingTxid &&
        identified crypto swap.vtrClaimTx swap.vtrClaimTxid &&
        identified crypto swap.vtrRefundTx swap.vtrRefundTxid))
        (failure "signed transaction identity mismatch")
      RefundLineage.validate crypto decodeBase58 record.order swap

def readRecord (name : String) (file : RecordFile) : Except RpcError Record := do
  let record ← file.mapError failure
  validateRecord crypto decodeBase58 name record
  pure record

theorem readRecord_eq_ok {crypto : Crypto} {decodeBase58 : String → Option Bytes}
    {name : String} {file : RecordFile} {record : Record} :
    readRecord crypto decodeBase58 name file = .ok record ↔
      file = .ok record ∧ validateRecord crypto decodeBase58 name record = .ok () := by
  simp only [readRecord, Checked.bind_eq_ok, Checked.mapError_eq_ok, Checked.pure_eq_ok]
  constructor
  · rintro ⟨read, stored, ⟨⟩, valid, rfl⟩
    exact ⟨stored, valid⟩
  · rintro ⟨stored, valid⟩
    exact ⟨record, stored, (), valid, rfl⟩

/-- A recorded value may be filled in but not changed. -/
def keeps {α : Type} [DecidableEq α] (old new : Option α) : Bool :=
  old.isNone || old == new

def supersedes (previous record : Record) : Except RpcError Unit := do
  rejectIf (OrderAnnouncement.fromOrder previous.order !=
      OrderAnnouncement.fromOrder record.order ||
    !keeps previous.order.preimage record.order.preimage ||
    !keeps previous.order.fundingTxid record.order.fundingTxid ||
    !keeps previous.order.takerAddress record.order.takerAddress)
    (failure "refusing to replace existing contract terms")
  match previous.swap with
  | none => pure ()
  | some old => do
      let new ← required (failure "refusing to discard swap recovery state") record.swap
      rejectIf (!RefundLineage.isPrefix crypto old.vtrRefundReplacements
        new.vtrRefundReplacements) (failure "refusing to replace or discard refund lineage")
      rejectIf (!(keeps old.vtrFundingTxid new.vtrFundingTxid &&
        keeps old.btcFundingTxid new.btcFundingTxid &&
        keeps old.vtrClaimTxid new.vtrClaimTxid && keeps old.vtrRefundTxid new.vtrRefundTxid &&
        keeps old.btcClaimTxid new.btcClaimTxid && keeps old.btcRefundTxid new.btcRefundTxid))
        (failure "refusing to replace a prepared transaction")

def admits (file : Option RecordFile) (record : Record) : Except RpcError Unit :=
  match file with
  | none => pure ()
  | some file => do
      let previous ← readRecord crypto decodeBase58 record.order.key file
      supersedes crypto previous record

def write (disk : Except String Unit) (directories : Directories) (name : String)
    (record : Record) : Except RpcError Directories := do
  let files := directory directories name
  admits crypto decodeBase58 files[record.order.key]? record
  disk.mapError failure
  pure (directories.insert name (files.insert record.order.key (.ok record)))

end

abbrev Swaps := ExtTreeMap String SwapState

end SwapRecovery

end Vtorrent
