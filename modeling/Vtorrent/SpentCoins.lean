import Vtorrent.RetainedState
import Vtorrent.WalletRescan

/-!
# Coins the wallet has spent

The wallet takes an output out of its set when it signs a transaction that spends it, and
remembers an output that it reserves for a swap.  A scan records the outputs of the blocks
it passes, except reserved ones; it does not know which outputs were spent by transactions
that are not in a block yet.
-/

namespace Vtorrent

namespace Btc

/-! ## Sending -/

def maxMoneySats : Nat := 21000000 * 100000000

/-- Take outputs until their sum reaches what is required. -/
def cover (required : Nat) : Nat → List Utxo → Option (List Utxo)
  | _, [] => none
  | sum, utxo :: utxos =>
      let sum := min (sum + utxo.value) (2 ^ 64 - 1)
      if required ≤ sum then some [utxo]
      else (cover required sum utxos).map fun selected => utxo :: selected

def UtxoSet.select (set : UtxoSet) (amount fee : Nat) : Option (List Utxo) :=
  if maxMoneySats < amount ∨ maxMoneySats < fee then none
  else cover (amount + fee) 0
    (set.utxos.mergeSort fun first second => decide (second.value ≤ first.value))

inductive SendError where
  | insufficientFunds (available required : Nat)
  | btc (error : BtcError)
deriving DecidableEq

/-- The keys of the wallet and the builder of signed transactions. -/
structure Sender where
  /-- `derive_address` -/
  deriveAddress : Nat → Except BtcError String
  /-- `derive_wif` -/
  deriveWif : Nat → Except BtcError String
  nextIndex : Nat
  /-- `build_and_sign` of inputs, destination, amount, fee, change address and key. -/
  buildAndSign : List Utxo → String → Nat → Nat → String → String → Except SendError Bytes

namespace Sender

variable (sender : Sender)

def findWif (selected : List Utxo) : List Nat → Option String → Except SendError (Option String)
  | [], wif => .ok wif
  | index :: indices, wif => do
      let address ← (sender.deriveAddress index).mapError SendError.btc
      if selected.any fun utxo => utxo.address == address then do
        rejectIf wif.isSome (SendError.btc (.invalidAddress
          "send_to requires all UTXOs to belong to the same address index"))
        let found ← (sender.deriveWif index).mapError SendError.btc
        findWif selected indices (some found)
      else findWif selected indices wif

end Sender

/-- `txid_of`, as text. -/
def txidOf (bitcoin : Bitcoin) (raw : Bytes) : Except BtcError String :=
  match bitcoin.deserialize raw with
  | .ok transaction => .ok (bitcoin.txidToString transaction.txid)
  | .error error => .error (.bitcoin error)

namespace BtcWallet

/-- The transaction of `send_to` and the outputs selected for it. -/
def prepareSend (bitcoin : Bitcoin) (sender : Sender) (wallet : BtcWallet) (toAddress : String)
    (amountSats feeSats : Nat) : Except SendError (String × Bytes × List Utxo) := do
  rejectIf wallet.rescanOnSync (SendError.btc .notSynced)
  match wallet.utxos.select amountSats feeSats with
  | none => .error (.insufficientFunds wallet.utxos.total
      (min (amountSats + feeSats) (2 ^ 64 - 1)))
  | some selected => do
      let changeAddress ← (sender.deriveAddress sender.nextIndex).mapError SendError.btc
      let wif ← sender.findWif selected (List.range (sender.nextIndex + 1)) none
      match wif with
      | none => .error (.btc (.invalidAddress "no matching address for selected UTXOs"))
      | some wif => do
          let raw ← sender.buildAndSign selected toAddress amountSats feeSats changeAddress wif
          let txid ← (txidOf bitcoin raw).mapError SendError.btc
          pure (txid, raw, selected)

def removeAll (wallet : BtcWallet) (selected : List Utxo) : BtcWallet :=
  { wallet with utxos := selected.foldl (fun set utxo => set.remove utxo.outpoint) wallet.utxos }

/-- `send_to`. -/
def sendTo (bitcoin : Bitcoin) (sender : Sender) (wallet : BtcWallet) (save : Except String Unit)
    (toAddress : String) (amountSats feeSats : Nat) :
    Except SendError ((String × Bytes × List Utxo) × BtcWallet) := do
  let sent ← wallet.prepareSend bitcoin sender toAddress amountSats feeSats
  pure (sent, (wallet.removeAll sent.2.2).saveUtxos save)

/-- `restore_utxos`. -/
def restoreUtxos (wallet : BtcWallet) (save : Except String Unit) (utxos : List Utxo) :
    BtcWallet :=
  { wallet with utxos := utxos.foldl UtxoSet.add wallet.utxos }.saveUtxos save

def scan (bitcoin : Bitcoin) (addresses : List String) (wallet : BtcWallet)
    (save : Except String Unit) (start : Nat) (blocks : Blocks) : BtcWallet :=
  let scanned := { wallet with utxos := scanFrom bitcoin addresses start blocks wallet.utxos }
  if blocks.isEmpty then scanned else scanned.saveUtxos save

end BtcWallet

def UtxoSet.reservedFor (set : UtxoSet) (orderId : String) : Finset (String × Nat) :=
  match set.swapContracts[orderId]? with
  | none => ∅
  | some contract =>
      match contract.inputTxid, contract.inputVout with
      | some txid, some vout => {(txid, vout)}
      | _, _ => ∅

/-! ## Runs -/

inductive WalletEvent where
  | sendTo (save : Except String Unit) (toAddress : String) (amountSats feeSats : Nat)
  | reserveSwapInput (save : Except String Unit) (input : Utxo) (raw : Bytes)
      (orderId : String) (htlc : BtcHtlc)
  | scan (save : Except String Unit) (start : Nat) (blocks : Blocks)
  | resetChainCacheFrom (fork : Option Nat) (save : Except String Unit)
  | rescanCompleted
  | restoreUtxos (save : Except String Unit) (utxos : List Utxo)
  | releaseSwapReservation (save : Except String Unit) (orderId : String)

/-- The wallet with the outpoints that it has used and that were not given back. -/
structure SpendingWallet where
  wallet : BtcWallet
  used : Finset (String × Nat)

namespace SpendingWallet

section Perform

variable (bitcoin : Bitcoin) (addresses : List String) (sender : Sender)

/-- The wallet and its used outpoints after an event; a failed call changes nothing. -/
def perform (state : SpendingWallet) : WalletEvent → SpendingWallet
  | .sendTo save toAddress amountSats feeSats =>
      match state.wallet.sendTo bitcoin sender save toAddress amountSats feeSats with
      | .error _ => state
      | .ok (sent, wallet) => ⟨wallet, state.used ∪ (sent.2.2.map Utxo.outpoint).toFinset⟩
  | .reserveSwapInput save input raw orderId htlc =>
      match state.wallet.reserveSwapInput bitcoin save input raw orderId htlc with
      | .error _ => state
      | .ok wallet => ⟨wallet, insert input.outpoint state.used⟩
  | .scan save start blocks =>
      { state with wallet := state.wallet.scan bitcoin addresses save start blocks }
  | .resetChainCacheFrom fork save =>
      { state with wallet := state.wallet.resetChainCacheFrom fork save }
  | .rescanCompleted => { state with wallet := { state.wallet with rescanOnSync := false } }
  | .restoreUtxos save utxos =>
      ⟨state.wallet.restoreUtxos save utxos,
        state.used \ (utxos.map Utxo.outpoint).toFinset⟩
  | .releaseSwapReservation save orderId =>
      match state.wallet.releaseSwapReservation save orderId with
      | .error _ => state
      | .ok (_, wallet) =>
          ⟨wallet, state.used \ state.wallet.utxos.reservedFor orderId⟩

def performAll (events : List WalletEvent) (state : SpendingWallet) : SpendingWallet :=
  events.foldl (perform bitcoin addresses sender) state

/-- The outpoints that a successful send or reservation selects. -/
def selected (state : SpendingWallet) : WalletEvent → List (String × Nat)
  | .sendTo save toAddress amountSats feeSats =>
      match state.wallet.sendTo bitcoin sender save toAddress amountSats feeSats with
      | .error _ => []
      | .ok (sent, _) => sent.2.2.map Utxo.outpoint
  | .reserveSwapInput save input raw orderId htlc =>
      match state.wallet.reserveSwapInput bitcoin save input raw orderId htlc with
      | .error _ => []
      | .ok _ => [input.outpoint]
  | _ => []

end Perform

end SpendingWallet

/-! ## Blocks of an honest chain -/

section Chain

variable (bitcoin : Bitcoin) (addresses : List String)

def Transaction.Spends (tx : Transaction) (outpoint : String × Nat) : Prop :=
  ∃ input ∈ tx.input, input.outpoint bitcoin = outpoint

def Transaction.Pays (tx : Transaction) (outpoint : String × Nat) : Prop :=
  ∃ output ∈ tx.output.zipIdx, outpoint = (bitcoin.txidToString tx.txid, output.2) ∧
    ∃ address ∈ addresses, bitcoin.addressScript address = some output.1.scriptPubkey

/-- No transaction spends an output of itself or of a later one. -/
def Ordered (txs : List Transaction) : Prop :=
  (∀ tx ∈ txs, ∀ input ∈ tx.input, input.previousTxid ≠ tx.txid) ∧
    txs.Pairwise fun earlier later => ∀ input ∈ earlier.input, input.previousTxid ≠ later.txid

/-- The blocks of a scan are in the order of an honest chain. -/
def WalletEvent.Honest : WalletEvent → Prop
  | .scan _ _ blocks => Ordered blocks.flatten
  | _ => True

/-- A scan that passes the payment of a used output passes its spending as well, unless the
output is reserved. -/
def SpendingWallet.Respects (state : SpendingWallet) : WalletEvent → Prop
  | .scan _ _ blocks => ∀ outpoint ∈ state.used,
      (∃ tx ∈ blocks.flatten, tx.Pays bitcoin addresses outpoint) →
        (∃ tx ∈ blocks.flatten, tx.Spends bitcoin outpoint) ∨
          outpoint ∈ state.wallet.utxos.reserved
  | _ => True

/-- Every scan of a run respects the used outputs. -/
def SpendingWallet.RespectsAll (sender : Sender) : SpendingWallet → List WalletEvent → Prop
  | _, [] => True
  | state, event :: events =>
      state.Respects bitcoin addresses event ∧
        RespectsAll sender (state.perform bitcoin addresses sender event) events

end Chain

/-! ## What a scan does to an outpoint -/

def UtxoSet.Holds (set : UtxoSet) (outpoint : String × Nat) : Prop :=
  outpoint ∈ set.utxos.map Utxo.outpoint

section Scan

variable {bitcoin : Bitcoin} {addresses : List String} {outpoint : String × Nat}

theorem holds_remove (set : UtxoSet) (removed : String × Nat) :
    (set.remove removed).Holds outpoint ↔ set.Holds outpoint ∧ outpoint ≠ removed := by
  simp only [UtxoSet.Holds, UtxoSet.remove, List.mem_map, List.mem_filter, decide_eq_true_eq]
  constructor
  · rintro ⟨utxo, ⟨member, differs⟩, rfl⟩
    exact ⟨⟨utxo, member, rfl⟩, differs⟩
  · rintro ⟨⟨utxo, member, rfl⟩, differs⟩
    exact ⟨utxo, ⟨member, differs⟩, rfl⟩

theorem utxos_noteSpend (set : UtxoSet) (spent : String × Nat) :
    (set.noteSpend spent).utxos = set.utxos := by
  rw [UtxoSet.noteSpend]
  split <;> rfl

theorem mem_reserved_noteSpend (set : UtxoSet) (spent : String × Nat) :
    outpoint ∈ (set.noteSpend spent).reserved ↔ outpoint ∈ set.reserved ∧ outpoint ≠ spent := by
  rw [UtxoSet.noteSpend]
  split
  · exact Finset.mem_erase.trans and_comm
  · rename_i free
    refine ⟨fun member => ⟨member, ?_⟩, And.left⟩
    rintro rfl
    exact free member

theorem spendInputs_spec (set : UtxoSet) (inputs : List TxIn) :
    ((inputs.foldl (spendInput bitcoin) set).Holds outpoint ↔
      set.Holds outpoint ∧ ∀ input ∈ inputs, input.outpoint bitcoin ≠ outpoint) ∧
    (outpoint ∈ (inputs.foldl (spendInput bitcoin) set).reserved ↔
      outpoint ∈ set.reserved ∧ ∀ input ∈ inputs, input.outpoint bitcoin ≠ outpoint) := by
  induction inputs generalizing set with
  | nil => simp
  | cons input inputs ih =>
      obtain ⟨held, kept⟩ := ih (spendInput bitcoin set input)
      have first : (spendInput bitcoin set input).Holds outpoint ↔
          set.Holds outpoint ∧ outpoint ≠ input.outpoint bitcoin := by
        rw [spendInput, holds_remove, UtxoSet.Holds, utxos_noteSpend, UtxoSet.Holds]
      have second : outpoint ∈ (spendInput bitcoin set input).reserved ↔
          outpoint ∈ set.reserved ∧ outpoint ≠ input.outpoint bitcoin :=
        mem_reserved_noteSpend set _
      rw [List.foldl_cons, held, kept, first, second]
      simp only [List.forall_mem_cons, ne_comm (a := outpoint)]
      constructor <;> tauto

theorem add_spec (set : UtxoSet) (utxo : Utxo) :
    ((set.add utxo).Holds outpoint ↔
      set.Holds outpoint ∨ utxo.outpoint = outpoint ∧ outpoint ∉ set.reserved) ∧
    (set.add utxo).reserved = set.reserved := by
  rw [UtxoSet.add]
  split
  · rename_i reserved
    refine ⟨⟨.inl, ?_⟩, rfl⟩
    rintro (held | ⟨rfl, free⟩)
    · exact held
    · exact absurd reserved free
  · rename_i free
    split
    · rename_i known
      refine ⟨⟨.inl, ?_⟩, rfl⟩
      rintro (held | ⟨rfl, -⟩)
      · exact held
      · obtain ⟨other, member, same⟩ := List.any_eq_true.mp known
        exact List.mem_map.mpr ⟨other, member, by simpa using same⟩
    · refine ⟨?_, rfl⟩
      simp only [UtxoSet.Holds, List.map_append, List.mem_append, List.map_singleton,
        List.mem_singleton]
      constructor
      · rintro (held | rfl)
        · exact .inl held
        · exact .inr ⟨rfl, free⟩
      · rintro (held | ⟨rfl, -⟩)
        · exact .inl held
        · exact .inr rfl

theorem foldl_records {ι : Type} {step : UtxoSet → ι → UtxoSet} {records : ι → Prop}
    (each : ∀ set item, ((step set item).Holds outpoint ↔
      set.Holds outpoint ∨ records item ∧ outpoint ∉ set.reserved) ∧
      (step set item).reserved = set.reserved)
    (items : List ι) (set : UtxoSet) :
    ((items.foldl step set).Holds outpoint ↔
      set.Holds outpoint ∨ (∃ item ∈ items, records item) ∧ outpoint ∉ set.reserved) ∧
    (items.foldl step set).reserved = set.reserved := by
  induction items generalizing set with
  | nil => simp
  | cons item items ih =>
      obtain ⟨held, kept⟩ := ih (step set item)
      obtain ⟨first, same⟩ := each set item
      rw [List.foldl_cons, held, kept, first, same]
      refine ⟨?_, rfl⟩
      simp only [List.exists_mem_cons_iff]
      tauto

theorem recordOutput_spec (tx : Transaction) (height : Nat) (set : UtxoSet)
    (output : TxOut × Nat) :
    ((recordOutput bitcoin addresses tx height set output).Holds outpoint ↔
      set.Holds outpoint ∨
        (∃ address ∈ addresses,
          bitcoin.addressScript address = some output.1.scriptPubkey ∧
            (bitcoin.txidToString tx.txid, output.2) = outpoint) ∧ outpoint ∉ set.reserved) ∧
    (recordOutput bitcoin addresses tx height set output).reserved = set.reserved := by
  apply foldl_records
  intro set address
  split
  · rename_i pays
    obtain ⟨held, kept⟩ := @add_spec outpoint set
      ⟨bitcoin.txidToString tx.txid, output.2, output.1.value, address, height⟩
    refine ⟨held.trans ?_, kept⟩
    simp [pays, Utxo.outpoint]
  · rename_i other
    simp [other]

theorem recordMatchingOutputs_spec (height : Nat) (set : UtxoSet) (tx : Transaction) :
    ((recordMatchingOutputs bitcoin addresses height set tx).Holds outpoint ↔
      set.Holds outpoint ∧ ¬tx.Spends bitcoin outpoint ∨
        tx.Pays bitcoin addresses outpoint ∧
          (outpoint ∉ set.reserved ∨ tx.Spends bitcoin outpoint)) ∧
    (outpoint ∈ (recordMatchingOutputs bitcoin addresses height set tx).reserved ↔
      outpoint ∈ set.reserved ∧ ¬tx.Spends bitcoin outpoint) := by
  obtain ⟨held, kept⟩ := @spendInputs_spec bitcoin outpoint set tx.input
  obtain ⟨recorded, same⟩ := foldl_records
    (@recordOutput_spec bitcoin addresses outpoint tx height) tx.output.zipIdx
    (tx.input.foldl (spendInput bitcoin) set)
  have untouched : (∀ input ∈ tx.input, input.outpoint bitcoin ≠ outpoint) ↔
      ¬tx.Spends bitcoin outpoint := by
    simp [Transaction.Spends]
  have pays : (∃ output ∈ tx.output.zipIdx, ∃ address ∈ addresses,
      bitcoin.addressScript address = some output.1.scriptPubkey ∧
        (bitcoin.txidToString tx.txid, output.2) = outpoint) ↔
      tx.Pays bitcoin addresses outpoint := by
    refine exists_congr fun output => and_congr_right fun _ => ?_
    constructor
    · rintro ⟨address, member, script, rfl⟩
      exact ⟨rfl, address, member, script⟩
    · rintro ⟨rfl, address, member, script⟩
      exact ⟨address, member, script, rfl⟩
  rw [untouched] at held kept
  rw [pays, held, kept] at recorded
  rw [not_and_or, not_not] at recorded
  refine ⟨recorded, ?_⟩
  rw [recordMatchingOutputs, same]
  exact kept

def placed (start : Nat) (blocks : Blocks) : List (Transaction × Nat) :=
  (blocks.zipIdx start).flatMap fun block => block.1.map fun tx => (tx, block.2)

theorem map_fst_placed (start : Nat) (blocks : Blocks) :
    (placed start blocks).map Prod.fst = blocks.flatten := by
  induction blocks generalizing start with
  | nil => rfl
  | cons block blocks ih =>
      have rest := ih (start + 1)
      simp only [placed, List.zipIdx_cons, List.flatMap_cons, List.map_append, List.map_map,
        List.flatten_cons] at rest ⊢
      rw [rest]
      simp [Function.comp_def]

theorem scanFrom_eq_foldl (start : Nat) (blocks : Blocks) (set : UtxoSet) :
    scanFrom bitcoin addresses start blocks set = (placed start blocks).foldl
      (fun set tx => recordMatchingOutputs bitcoin addresses tx.2 set tx.1) set := by
  rw [scanFrom, scanBlocks, placed, List.foldl_flatMap]
  simp only [List.foldl_map]

/-- In the order of an honest chain, an outpoint is held after transactions that do not spend
it when it was held before, or when they pay it to the wallet and it is not reserved. -/
theorem holds_foldl_iff (injective : Function.Injective bitcoin.txidToString)
    (txs : List (Transaction × Nat)) (ordered : Ordered (txs.map Prod.fst)) (set : UtxoSet) :
    (txs.foldl (fun set tx => recordMatchingOutputs bitcoin addresses tx.2 set tx.1)
        set).Holds outpoint ↔
      (∀ tx ∈ txs, ¬tx.1.Spends bitcoin outpoint) ∧
        (set.Holds outpoint ∨
          (∃ tx ∈ txs, tx.1.Pays bitcoin addresses outpoint) ∧ outpoint ∉ set.reserved) := by
  induction txs generalizing set with
  | nil => simp
  | cons first txs ih =>
      obtain ⟨own, later⟩ := ordered
      rw [List.map_cons, List.pairwise_cons] at later
      have rest : Ordered (txs.map Prod.fst) :=
        ⟨fun tx member => own tx (List.mem_cons_of_mem _ member), later.2⟩
      obtain ⟨held, kept⟩ :=
        @recordMatchingOutputs_spec bitcoin addresses outpoint first.2 set first.1
      have apart : ∀ tx ∈ first :: txs, first.1.Spends bitcoin outpoint →
          ¬tx.1.Pays bitcoin addresses outpoint := by
        rintro tx member ⟨input, spent, named⟩ ⟨output, -, same, -⟩
        have txid : input.previousTxid = tx.1.txid :=
          injective (congrArg Prod.fst (named.trans same))
        rcases List.mem_cons.mp member with rfl | after
        · exact own tx.1 (by simp) input spent txid
        · exact later.1 tx.1 (List.mem_map_of_mem after) input spent txid
      rw [List.foldl_cons, ih rest, held, kept]
      simp only [List.forall_mem_cons, List.exists_mem_cons_iff]
      by_cases spends : first.1.Spends bitcoin outpoint
      · have unpaid := apart first (by simp) spends
        have unpaid' : ¬∃ tx ∈ txs, tx.1.Pays bitcoin addresses outpoint := by
          rintro ⟨tx, member, pays⟩
          exact apart tx (List.mem_cons_of_mem _ member) spends pays
        simp [spends, unpaid, unpaid']
      · simp only [spends, not_false_eq_true, and_true, or_false, true_and]
        tauto

theorem holds_scanFrom_iff (injective : Function.Injective bitcoin.txidToString)
    {start : Nat} {blocks : Blocks} (ordered : Ordered blocks.flatten) {set : UtxoSet} :
    (scanFrom bitcoin addresses start blocks set).Holds outpoint ↔
      (∀ tx ∈ blocks.flatten, ¬tx.Spends bitcoin outpoint) ∧
        (set.Holds outpoint ∨
          (∃ tx ∈ blocks.flatten, tx.Pays bitcoin addresses outpoint) ∧
            outpoint ∉ set.reserved) := by
  rw [← map_fst_placed start] at ordered ⊢
  rw [scanFrom_eq_foldl, holds_foldl_iff injective _ ordered]
  simp only [List.mem_map, forall_exists_index, and_imp, forall_apply_eq_imp_iff₂,
    exists_exists_and_eq_and]

end Scan

/-! ## What the calls do to the outpoints -/

section Calls

variable {bitcoin : Bitcoin} {sender : Sender} {wallet after : BtcWallet}
  {save : Except String Unit} {outpoint : String × Nat}

theorem cover_subset {required sum : Nat} {utxos selected : List Utxo}
    (covered : cover required sum utxos = some selected) : selected ⊆ utxos := by
  induction utxos generalizing sum selected with
  | nil => cases covered
  | cons utxo utxos ih =>
      rw [cover] at covered
      split at covered
      · cases covered
        exact List.cons_subset_cons _ (List.nil_subset _)
      · obtain ⟨rest, shown, rfl⟩ := Option.map_eq_some_iff.mp covered
        exact List.cons_subset_cons _ (ih shown)

theorem select_subset {set : UtxoSet} {amount fee : Nat} {selected : List Utxo}
    (chosen : set.select amount fee = some selected) : selected ⊆ set.utxos := by
  rw [UtxoSet.select] at chosen
  split at chosen
  · cases chosen
  · exact fun utxo member => (List.mergeSort_perm _ _).mem_iff.mp (cover_subset chosen member)

theorem prepareSend_subset {toAddress : String} {amount fee : Nat}
    {sent : String × Bytes × List Utxo}
    (prepared : wallet.prepareSend bitcoin sender toAddress amount fee = .ok sent) :
    sent.2.2 ⊆ wallet.utxos.utxos := by
  obtain ⟨_, -, prepared⟩ := Checked.bind_eq_ok.mp prepared
  split at prepared
  · cases prepared
  · rename_i selected chosen
    obtain ⟨_, -, prepared⟩ := Checked.bind_eq_ok.mp prepared
    obtain ⟨wif, -, prepared⟩ := Checked.bind_eq_ok.mp prepared
    split at prepared
    · cases prepared
    · obtain ⟨_, -, prepared⟩ := Checked.bind_eq_ok.mp prepared
      obtain ⟨_, -, prepared⟩ := Checked.bind_eq_ok.mp prepared
      cases prepared
      exact select_subset chosen

theorem holds_removeAll (selected : List Utxo) (set : UtxoSet) :
    (selected.foldl (fun set utxo => set.remove utxo.outpoint) set).Holds outpoint ↔
      set.Holds outpoint ∧ outpoint ∉ selected.map Utxo.outpoint := by
  induction selected generalizing set with
  | nil => simp
  | cons utxo selected ih =>
      rw [List.foldl_cons, ih, holds_remove, List.map_cons, List.mem_cons, not_or, and_assoc]

/-- A send selects held outpoints and takes them out of the set. -/
theorem sendTo_eq_ok {toAddress : String} {amount fee : Nat}
    {sent : String × Bytes × List Utxo}
    (result : wallet.sendTo bitcoin sender save toAddress amount fee = .ok (sent, after)) :
    (∀ utxo ∈ sent.2.2, wallet.utxos.Holds utxo.outpoint) ∧
      ∀ outpoint, after.utxos.Holds outpoint ↔
        wallet.utxos.Holds outpoint ∧ outpoint ∉ sent.2.2.map Utxo.outpoint := by
  obtain ⟨prepared, shown, result⟩ := Checked.bind_eq_ok.mp result
  cases result
  constructor
  · intro utxo member
    exact List.mem_map_of_mem (prepareSend_subset shown member)
  · intro outpoint
    rw [BtcWallet.utxos_saveUtxos]
    exact holds_removeAll _ _

theorem BtcWallet.persisting_eq_ok {wallet after : BtcWallet} {save : Except String Unit}
    {failure : String} {set : UtxoSet}
    (saved : wallet.persisting save failure set = .ok after) : after.utxos = set := by
  unfold persisting at saved
  split at saved
  · cases saved
    rfl
  · cases saved
    rfl
  · cases saved

theorem reserveSwapInput_eq_ok {input : Utxo} {raw : Bytes} {orderId : String} {htlc : BtcHtlc}
    (result : wallet.reserveSwapInput bitcoin save input raw orderId htlc = .ok after) :
    wallet.utxos.Holds input.outpoint ∧
      ∀ outpoint, after.utxos.Holds outpoint ↔
        wallet.utxos.Holds outpoint ∧ outpoint ≠ input.outpoint := by
  unfold BtcWallet.reserveSwapInput at result
  split at result
  · cases result
  · split at result
    · cases result
    · split at result
      · rename_i available
        obtain ⟨held, member, same⟩ := List.any_eq_true.mp available
        refine ⟨List.mem_map.mpr ⟨held, member, ?_⟩, fun outpoint => ?_⟩
        · exact (of_decide_eq_true same).1
        · rw [BtcWallet.persisting_eq_ok result]
          exact holds_remove wallet.utxos input.outpoint
      · cases result

theorem releaseSwapReservation_holds {orderId : String} {released : Bool}
    (result : wallet.releaseSwapReservation save orderId = .ok (released, after)) :
    after.utxos.Holds outpoint ↔ wallet.utxos.Holds outpoint := by
  unfold BtcWallet.releaseSwapReservation at result
  split at result
  · cases result
    rfl
  · split at result
    · dsimp only at result
      generalize saved : wallet.persisting save _ _ = attempt at result
      cases attempt with
      | error error => cases result
      | ok stored =>
          cases result
          rw [BtcWallet.persisting_eq_ok saved, UtxoSet.Holds, UtxoSet.Holds,
            UtxoSet.clearSpentReserved, UtxoSet.removeSwapContract]
          split <;> rfl
    · cases result
      rfl

theorem resetChainCacheFrom_holds {fork : Option Nat}
    (held : (wallet.resetChainCacheFrom fork save).utxos.Holds outpoint) :
    wallet.utxos.Holds outpoint := by
  unfold BtcWallet.resetChainCacheFrom at held
  rw [BtcWallet.utxos_saveUtxos] at held
  cases fork with
  | none => cases held
  | some fork =>
      obtain ⟨utxo, member, rfl⟩ := List.mem_map.mp held
      exact List.mem_map_of_mem (List.mem_of_mem_filter member)

theorem restoreUtxos_holds {utxos : List Utxo}
    (held : (wallet.restoreUtxos save utxos).utxos.Holds outpoint) :
    wallet.utxos.Holds outpoint ∨ outpoint ∈ utxos.map Utxo.outpoint := by
  rw [BtcWallet.restoreUtxos, BtcWallet.utxos_saveUtxos] at held
  rcases (foldl_records (fun set utxo => @add_spec outpoint set utxo) utxos
    wallet.utxos).1.mp held with before | ⟨⟨utxo, member, same⟩, -⟩
  · exact .inl before
  · exact .inr (List.mem_map.mpr ⟨utxo, member, same⟩)

theorem scan_holds {addresses : List String} {start : Nat} {blocks : Blocks} :
    (wallet.scan bitcoin addresses save start blocks).utxos.Holds outpoint ↔
      (scanFrom bitcoin addresses start blocks wallet.utxos).Holds outpoint := by
  rw [BtcWallet.scan]
  split
  · rfl
  · rw [BtcWallet.utxos_saveUtxos]

end Calls

/-! ## Runs that respect the used outputs -/

namespace SpendingWallet

variable {bitcoin : Bitcoin} {addresses : List String} {sender : Sender}

def Apart (state : SpendingWallet) : Prop :=
  ∀ outpoint ∈ state.used, ¬state.wallet.utxos.Holds outpoint

/-- From a state whose used outpoints are not in the set, a scan of an honest chain keeps them
out exactly when it respects them. -/
theorem apart_scan_iff (injective : Function.Injective bitcoin.txidToString)
    {state : SpendingWallet} (apart : state.Apart) {save : Except String Unit} {start : Nat}
    {blocks : Blocks} (honest : (WalletEvent.scan save start blocks).Honest) :
    (state.perform bitcoin addresses sender (.scan save start blocks)).Apart ↔
      state.Respects bitcoin addresses (.scan save start blocks) := by
  have held : ∀ outpoint ∈ state.used,
      ((state.wallet.scan bitcoin addresses save start blocks).utxos.Holds outpoint ↔
        (∀ tx ∈ blocks.flatten, ¬tx.Spends bitcoin outpoint) ∧
          (∃ tx ∈ blocks.flatten, tx.Pays bitcoin addresses outpoint) ∧
            outpoint ∉ state.wallet.utxos.reserved) := by
    intro outpoint used
    rw [scan_holds, holds_scanFrom_iff injective honest]
    simp only [apart outpoint used, false_or]
  constructor
  · intro after outpoint used pays
    have absent := mt (held outpoint used).mpr (after outpoint used)
    by_contra neither
    rw [not_or] at neither
    refine absent ⟨fun tx member spends => neither.1 ⟨tx, member, spends⟩, pays, neither.2⟩
  · intro respected outpoint used holds
    obtain ⟨unspent, pays, free⟩ := (held outpoint used).mp holds
    rcases respected outpoint used pays with ⟨tx, member, spends⟩ | reserved
    · exact unspent tx member spends
    · exact free reserved

theorem Apart.perform (injective : Function.Injective bitcoin.txidToString)
    {state : SpendingWallet} (apart : state.Apart) {event : WalletEvent} (honest : event.Honest)
    (respected : state.Respects bitcoin addresses event) :
    (state.perform bitcoin addresses sender event).Apart := by
  cases event with
  | sendTo save toAddress amount fee =>
      rw [SpendingWallet.perform]
      split
      · exact apart
      · rename_i sent wallet result
        intro outpoint used holds
        obtain ⟨before, unselected⟩ := ((sendTo_eq_ok result).2 outpoint).mp holds
        rcases Finset.mem_union.mp used with old | new
        · exact apart outpoint old before
        · exact unselected (List.mem_toFinset.mp new)
  | reserveSwapInput save input raw orderId htlc =>
      rw [SpendingWallet.perform]
      split
      · exact apart
      · rename_i wallet result
        intro outpoint used holds
        obtain ⟨before, differs⟩ := ((reserveSwapInput_eq_ok result).2 outpoint).mp holds
        rcases Finset.mem_insert.mp used with rfl | old
        · exact differs rfl
        · exact apart outpoint old before
  | scan save start blocks => exact (apart_scan_iff injective apart honest).mpr respected
  | resetChainCacheFrom fork save =>
      exact fun outpoint used holds => apart outpoint used (resetChainCacheFrom_holds holds)
  | rescanCompleted => exact apart
  | restoreUtxos save utxos =>
      intro outpoint used holds
      obtain ⟨old, kept⟩ := Finset.mem_sdiff.mp used
      rcases restoreUtxos_holds holds with before | restored
      · exact apart outpoint old before
      · exact kept (List.mem_toFinset.mpr restored)
  | releaseSwapReservation save orderId =>
      rw [SpendingWallet.perform]
      split
      · exact apart
      · rename_i released wallet result
        intro outpoint used holds
        exact apart outpoint (Finset.mem_sdiff.mp used).1
          ((releaseSwapReservation_holds result).mp holds)

theorem Apart.performAll (injective : Function.Injective bitcoin.txidToString)
    (events : List WalletEvent) {state : SpendingWallet} (apart : state.Apart)
    (honest : ∀ event ∈ events, event.Honest)
    (respected : state.RespectsAll bitcoin addresses sender events) :
    (state.performAll bitcoin addresses sender events).Apart := by
  induction events generalizing state with
  | nil => exact apart
  | cons event events ih =>
      exact ih (apart.perform injective (honest event (by simp)) respected.1)
        (fun other member => honest other (by simp [member])) respected.2

theorem holds_of_selected {state : SpendingWallet} {event : WalletEvent} {outpoint : String × Nat}
    (chosen : outpoint ∈ state.selected bitcoin sender event) :
    state.wallet.utxos.Holds outpoint := by
  cases event with
  | sendTo save toAddress amount fee =>
      rw [selected] at chosen
      split at chosen
      · cases chosen
      · rename_i sent wallet result
        obtain ⟨utxo, member, rfl⟩ := List.mem_map.mp chosen
        exact (sendTo_eq_ok result).1 utxo member
  | reserveSwapInput save input raw orderId htlc =>
      rw [selected] at chosen
      split at chosen
      · cases chosen
      · rename_i wallet result
        rw [List.mem_singleton.mp chosen]
        exact (reserveSwapInput_eq_ok result).1
  | _ => cases chosen

/-- In every run of a wallet in which each scan of an honest chain that passes the payment of a
used output passes its spending as well, or finds it reserved, no outpoint that was used and
not given back is selected again.  A scan for which this fails puts a used output back into
the set. -/
theorem used_not_selected_again (injective : Function.Injective bitcoin.txidToString) :
    (∀ (wallet : BtcWallet) (past : List WalletEvent) (event : WalletEvent),
      (∀ earlier ∈ past, earlier.Honest) →
      RespectsAll bitcoin addresses sender ⟨wallet, ∅⟩ past →
      ∀ outpoint ∈ (performAll bitcoin addresses sender past ⟨wallet, ∅⟩).selected bitcoin
          sender event,
        outpoint ∉ (performAll bitcoin addresses sender past ⟨wallet, ∅⟩).used) ∧
    ∀ (state : SpendingWallet) (save : Except String Unit) (start : Nat) (blocks : Blocks),
      state.Apart → (WalletEvent.scan save start blocks).Honest →
      ((state.perform bitcoin addresses sender (.scan save start blocks)).Apart ↔
        state.Respects bitcoin addresses (.scan save start blocks)) := by
  constructor
  · intro wallet past event honest respected outpoint chosen used
    have start : Apart ⟨wallet, ∅⟩ := fun outpoint used => absurd used (Finset.notMem_empty _)
    exact start.performAll injective past honest respected outpoint used
      (holds_of_selected chosen)
  · intro state save start blocks apart honest
    exact apart_scan_iff injective apart honest

end SpendingWallet

namespace Payment

def readable : Bitcoin := { bitcoin with deserialize := fun _ => .ok spending }

def payer : Sender where
  deriveAddress := fun _ => .ok "wallet"
  deriveWif := fun _ => .ok "wif"
  nextIndex := 0
  buildAndSign := fun _ _ _ _ _ _ => .ok []

def paidWallet : BtcWallet :=
  { wallet with utxos := scanFrom readable ["wallet"] 0 [[paying]] .new }

def send : WalletEvent := .sendTo (.ok ()) "other" 4000 100

def rescan (blocks : Blocks) : WalletEvent := .scan (.ok ()) 0 blocks

def outpoint : String × Nat := (hexEncode (List.replicate 32 1), 0)

def afterScan (blocks : Blocks) : SpendingWallet :=
  SpendingWallet.performAll readable ["wallet"] payer [send, rescan blocks] ⟨paidWallet, ∅⟩

end Payment

theorem used_not_selected_after_spending :
    Payment.outpoint ∈ (Payment.afterScan [[Payment.paying], [Payment.spending]]).used ∧
      ∀ outpoint ∈ (Payment.afterScan [[Payment.paying], [Payment.spending]]).selected
          Payment.readable Payment.payer Payment.send,
        outpoint ∉ (Payment.afterScan [[Payment.paying], [Payment.spending]]).used := by
  have injective : Function.Injective Payment.readable.txidToString := fun first second same =>
    List.Vector.toList_injective (hexEncode_injective same)
  have runs : (SpendingWallet.perform Payment.readable ["wallet"] Payment.payer
        ⟨Payment.paidWallet, ∅⟩ Payment.send).used = {Payment.outpoint} ∧
      Payment.outpoint ∈ (Payment.afterScan [[Payment.paying], [Payment.spending]]).used := by
    decide +kernel
  obtain ⟨used, kept⟩ := runs
  refine ⟨kept, (SpendingWallet.used_not_selected_again injective).1 Payment.paidWallet
    [Payment.send, Payment.rescan [[Payment.paying], [Payment.spending]]] Payment.send ?_ ?_⟩
  · intro earlier member
    rcases List.mem_pair.mp member with rfl | rfl
    · trivial
    · refine ⟨?_, ?_⟩
      · simp only [List.flatten_cons, List.flatten_nil, List.append_nil, List.cons_append,
          List.nil_append, List.forall_mem_cons]
        decide
      · simp [Payment.paying]
  · refine ⟨trivial, fun outpoint member pays => .inl ⟨Payment.spending, by simp, ?_⟩, trivial⟩
    rw [used, Finset.mem_singleton] at member
    subst member
    exact ⟨⟨List.Vector.replicate 32 1, 0, []⟩, by simp [Payment.spending], rfl⟩

/-- A scan that passes the payment again before its spending is in a block makes the wallet sign a
second transaction that spends it. -/
theorem payment_spent_twice :
    (Payment.rescan [[Payment.paying]]).Honest ∧
      Payment.outpoint ∈ (Payment.afterScan [[Payment.paying]]).used ∧
      Payment.outpoint ∈ (Payment.afterScan [[Payment.paying]]).selected Payment.readable
        Payment.payer Payment.send := by
  refine ⟨⟨by simp [Payment.paying], by simp⟩, ?_⟩
  decide +kernel

end Btc

end Vtorrent
