import Vtorrent.BtcWallet
import Vtorrent.RollbackScans

/-!
# Rescanning after a reorganisation

Without reservations a scan replays events on the list of outputs: each input takes an
output away and each payment to the wallet appends one.  After a reorganisation the wallet
keeps the outputs up to the last common height and scans the new blocks.  An output of the
common blocks that the old chain spent is gone from the list, and a new chain that does
not spend it does not bring it back.
-/

namespace Vtorrent

namespace Btc

open RollbackScan

section Events

variable (bitcoin : Bitcoin) (addresses : List String)

/-- A chain as blocks of transactions, from a height upwards. -/
abbrev Blocks := List (List Transaction)

def scanFrom (start : Nat) (blocks : Blocks) (set : UtxoSet) : UtxoSet :=
  scanBlocks bitcoin addresses (blocks.zipIdx start) set

def spentOutpoints (blocks : Blocks) : List (String × Nat) :=
  blocks.flatMap fun block => block.flatMap fun tx => tx.input.map (TxIn.outpoint bitcoin)

abbrev ScanEvent := Event (String × Nat) Utxo

def addressEvents (tx : Transaction) (height : Nat) (output : TxOut × Nat)
    (address : String) : List ScanEvent :=
  if bitcoin.addressScript address = some output.1.scriptPubkey then
    [.create ⟨bitcoin.txidToString tx.txid, output.2, output.1.value, address, height⟩]
  else []

def inputEvents (input : TxIn) : List ScanEvent := [.spend (input.outpoint bitcoin)]

def txEvents (height : Nat) (tx : Transaction) : List ScanEvent :=
  tx.input.flatMap (inputEvents bitcoin) ++
    tx.output.zipIdx.flatMap fun output =>
      addresses.flatMap (addressEvents bitcoin tx height output)

def blockEvents (block : List Transaction × Nat) : List ScanEvent :=
  block.1.flatMap (txEvents bitcoin addresses block.2)

/-- What the blocks from a height upwards do to the outputs of the wallet. -/
def scanEvents (start : Nat) (blocks : Blocks) : List ScanEvent :=
  (blocks.zipIdx start).flatMap (blockEvents bitcoin addresses)

end Events

def Replays (events : List ScanEvent) (before after : UtxoSet) : Prop :=
  after.utxos = replay Utxo.outpoint events before.utxos ∧ after.reserved = ∅

theorem Replays.append {first second : List ScanEvent} {before between after : UtxoSet}
    (earlier : Replays first before between) (later : Replays second between after) :
    Replays (first ++ second) before after := by
  refine ⟨?_, later.2⟩
  rw [later.1, earlier.1, replay_append]

theorem Replays.foldl {ι : Type} {step : UtxoSet → ι → UtxoSet} {events : ι → List ScanEvent}
    (each : ∀ (set : UtxoSet) (item : ι), set.reserved = ∅ →
      Replays (events item) set (step set item))
    (items : List ι) {set : UtxoSet} (unreserved : set.reserved = ∅) :
    Replays (items.flatMap events) set (items.foldl step set) := by
  induction items generalizing set with
  | nil => exact ⟨rfl, unreserved⟩
  | cons item items ih =>
      rw [List.flatMap_cons, List.foldl_cons]
      have first := each set item unreserved
      exact first.append (ih first.2)

section Scan

variable {bitcoin : Bitcoin} {addresses : List String}

theorem spendInput_replays (set : UtxoSet) (input : TxIn) (unreserved : set.reserved = ∅) :
    Replays (inputEvents bitcoin input) set (spendInput bitcoin set input) := by
  have ignored : set.noteSpend (input.outpoint bitcoin) = set := by
    rw [UtxoSet.noteSpend, if_neg (by simp [unreserved])]
  rw [spendInput, ignored]
  exact ⟨rfl, unreserved⟩

theorem add_replays {set : UtxoSet} (utxo : Utxo) (unreserved : set.reserved = ∅) :
    Replays [.create utxo] set (set.add utxo) := by
  rw [UtxoSet.add, if_neg (by simp [unreserved]), Replays, replay_cons, Event.apply]
  split
  · exact ⟨rfl, unreserved⟩
  · exact ⟨rfl, unreserved⟩

theorem recordOutput_replays (tx : Transaction) (height : Nat) (set : UtxoSet)
    (output : TxOut × Nat) (unreserved : set.reserved = ∅) :
    Replays (addresses.flatMap (addressEvents bitcoin tx height output)) set
      (recordOutput bitcoin addresses tx height set output) := by
  apply Replays.foldl _ addresses unreserved
  intro set address unreserved
  rw [addressEvents]
  split
  · exact add_replays _ unreserved
  · exact ⟨rfl, unreserved⟩

theorem recordMatchingOutputs_replays (height : Nat) (set : UtxoSet) (tx : Transaction)
    (unreserved : set.reserved = ∅) :
    Replays (txEvents bitcoin addresses height tx) set
      (recordMatchingOutputs bitcoin addresses height set tx) := by
  have spends : Replays (tx.input.flatMap (inputEvents bitcoin)) set
      (tx.input.foldl (spendInput bitcoin) set) :=
    Replays.foldl spendInput_replays tx.input unreserved
  exact spends.append
    (Replays.foldl (recordOutput_replays tx height) tx.output.zipIdx spends.2)

theorem scanFrom_replays (start : Nat) (blocks : Blocks) {set : UtxoSet}
    (unreserved : set.reserved = ∅) :
    Replays (scanEvents bitcoin addresses start blocks) set
      (scanFrom bitcoin addresses start blocks set) :=
  Replays.foldl (fun _ block free =>
    Replays.foldl (recordMatchingOutputs_replays block.2) block.1 free)
    (blocks.zipIdx start) unreserved

theorem spent_flatMap {ι : Type} (events : ι → List ScanEvent) (items : List ι) :
    spent (items.flatMap events) = items.flatMap fun item => spent (events item) := by
  induction items with
  | nil => rfl
  | cons item items ih => rw [List.flatMap_cons, spent_append, ih, List.flatMap_cons]

theorem spent_txEvents (height : Nat) (tx : Transaction) :
    spent (txEvents bitcoin addresses height tx) = tx.input.map (TxIn.outpoint bitcoin) := by
  have nothing : ∀ output address,
      spent (addressEvents bitcoin tx height output address) = [] := by
    intro output address
    rw [addressEvents]
    split <;> rfl
  rw [txEvents, spent_append, spent_flatMap, spent_flatMap]
  simp only [spent_flatMap, nothing, inputEvents, spent]
  rw [List.map_eq_flatMap, List.append_right_eq_self]
  simp only [List.flatMap_eq_nil_iff, implies_true]

theorem spent_scanEvents (start : Nat) (blocks : Blocks) :
    spent (scanEvents bitcoin addresses start blocks) = spentOutpoints bitcoin blocks := by
  induction blocks generalizing start with
  | nil => rfl
  | cons block blocks ih =>
      have first : spent (blockEvents bitcoin addresses (block, start)) =
          block.flatMap fun tx => tx.input.map (TxIn.outpoint bitcoin) := by
        rw [blockEvents, spent_flatMap]
        simp only [spent_txEvents]
      rw [scanEvents, List.zipIdx_cons, List.flatMap_cons, spent_append, ← scanEvents, ih,
        first]
      rfl

theorem creates_scanEvents (start : Nat) (blocks : Blocks) :
    RollbackScan.Creates
      (fun created => start ≤ created.height ∧ created.height < start + blocks.length)
      (scanEvents bitcoin addresses start blocks) := by
  intro created member
  obtain ⟨⟨block, height⟩, inBlocks, inBlock⟩ := List.mem_flatMap.mp member
  obtain ⟨tx, -, inTx⟩ := List.mem_flatMap.mp inBlock
  obtain ⟨lower, upper, -⟩ := List.mem_zipIdx inBlocks
  have same : created.height = height := by
    rw [txEvents, List.mem_append, List.mem_flatMap, List.mem_flatMap] at inTx
    rcases inTx with ⟨input, -, inInput⟩ | ⟨output, -, inOutput⟩
    · simp [inputEvents] at inInput
    · obtain ⟨address, -, inAddress⟩ := List.mem_flatMap.mp inOutput
      rw [addressEvents] at inAddress
      split at inAddress
      · obtain rfl : created = _ := by simpa using inAddress
        rfl
      · simp at inAddress
  rw [same]
  exact ⟨lower, upper⟩

theorem height_of_mem_scanFrom {start : Nat} {blocks : Blocks} {utxo : Utxo}
    (member : utxo ∈ (scanFrom bitcoin addresses start blocks .new).utxos) :
    utxo.height < start + blocks.length := by
  rw [(scanFrom_replays start blocks rfl).1] at member
  have new : RollbackScan.Creates
      (fun created => decide (start + blocks.length ≤ created.height) = false)
      (scanEvents bitcoin addresses start blocks) := by
    intro created inEvents
    have := (creates_scanEvents start blocks created inEvents).2
    simpa using this
  by_contra high
  have inHigh : utxo ∈ (replay Utxo.outpoint (scanEvents bitcoin addresses start blocks)
      UtxoSet.new.utxos).filter fun held => decide (start + blocks.length ≤ held.height) := by
    rw [List.mem_filter]
    exact ⟨member, by simpa using high⟩
  rw [filter_replay new] at inHigh
  simp [UtxoSet.new] at inHigh

end Scan

/-! ## Rolling back and scanning again -/

section Rescan

variable {bitcoin : Bitcoin} {addresses : List String}

/-- Every wallet output of the common blocks that the old blocks spend is spent by the new
blocks as well. -/
def SpentAgain (bitcoin : Bitcoin) (addresses : List String) (common old new : Blocks) :
    Prop :=
  ∀ utxo ∈ (scanFrom bitcoin addresses 0 common .new).utxos,
    utxo.outpoint ∈ spentOutpoints bitcoin old → utxo.outpoint ∈ spentOutpoints bitcoin new

def rescanned (bitcoin : Bitcoin) (addresses : List String) (wallet : BtcWallet)
    (fork : Nat) (save : Except String Unit) (new : Blocks) : List Utxo :=
  (scanFrom bitcoin addresses (fork + 1) new
    (wallet.resetChainCacheFrom (some fork) save).utxos).utxos

theorem BtcWallet.utxos_saveUtxos (wallet : BtcWallet) (save : Except String Unit) :
    (wallet.saveUtxos save).utxos = wallet.utxos := by
  unfold saveUtxos
  split <;> rfl

theorem BtcWallet.utxos_resetChainCacheFrom (wallet : BtcWallet) (fork : Nat)
    (save : Except String Unit) :
    (wallet.resetChainCacheFrom (some fork) save).utxos.utxos =
        wallet.utxos.utxos.filter (fun held => decide (held.height ≤ fork)) ∧
      (wallet.resetChainCacheFrom (some fork) save).utxos.reserved =
        wallet.utxos.reserved := by
  rw [resetChainCacheFrom, utxos_saveUtxos]
  exact ⟨rfl, rfl⟩

theorem scanFrom_append (start : Nat) (first second : Blocks) (set : UtxoSet) :
    scanFrom bitcoin addresses start (first ++ second) set =
      scanFrom bitcoin addresses (start + first.length) second
        (scanFrom bitcoin addresses start first set) := by
  rw [scanFrom, List.zipIdx_append, scanBlocks, List.foldl_append]
  rfl

section Fork

variable {fork : Nat} {common : Blocks} (shared : common.length = fork + 1)

include shared

theorem scanFrom_common_append (blocks : Blocks) :
    (scanFrom bitcoin addresses 0 (common ++ blocks) .new).utxos =
      replay Utxo.outpoint (scanEvents bitcoin addresses (fork + 1) blocks)
        (scanFrom bitcoin addresses 0 common .new).utxos := by
  rw [scanFrom_append, shared, Nat.zero_add,
    (scanFrom_replays _ _ (scanFrom_replays 0 common rfl).2).1]

theorem common_below : ∀ utxo ∈ (scanFrom bitcoin addresses 0 common .new).utxos,
    decide (utxo.height ≤ fork) = true := by
  intro utxo member
  have bound := height_of_mem_scanFrom member
  exact decide_eq_true (by omega)

end Fork

theorem branch_above (fork : Nat) (blocks : Blocks) :
    RollbackScan.Creates (fun created => decide (created.height ≤ fork) = false)
      (scanEvents bitcoin addresses (fork + 1) blocks) := by
  intro created member
  have := (creates_scanEvents (fork + 1) blocks created member).1
  simpa using this

/-- Rolling back to the last common height and scanning the new blocks gives the outputs
that a scan of the whole new chain gives, in the same order, exactly when the new blocks
spend every common output that the old blocks spent.  Otherwise not even the same outputs
are found. -/
theorem rescan_agrees_iff {wallet : BtcWallet} {fork : Nat} {common old new : Blocks}
    (shared : common.length = fork + 1) (unreserved : wallet.utxos.reserved = ∅)
    (built : wallet.utxos.utxos =
      (scanFrom bitcoin addresses 0 (common ++ old) .new).utxos)
    (save : Except String Unit) :
    (rescanned bitcoin addresses wallet fork save new =
        (scanFrom bitcoin addresses 0 (common ++ new) .new).utxos ↔
      SpentAgain bitcoin addresses common old new) ∧
    ((∀ utxo, utxo ∈ rescanned bitcoin addresses wallet fork save new ↔
        utxo ∈ (scanFrom bitcoin addresses 0 (common ++ new) .new).utxos) ↔
      SpentAgain bitcoin addresses common old new) := by
  obtain ⟨rolledBack, stillUnreserved⟩ := wallet.utxos_resetChainCacheFrom fork save
  have again : rescanned bitcoin addresses wallet fork save new =
      replay Utxo.outpoint (scanEvents bitcoin addresses (fork + 1) new)
        ((replay Utxo.outpoint (scanEvents bitcoin addresses (fork + 1) old)
          (scanFrom bitcoin addresses 0 common .new).utxos).filter
            fun held => decide (held.height ≤ fork)) := by
    rw [rescanned, (scanFrom_replays _ _ (stillUnreserved.trans unreserved)).1, rolledBack,
      built, scanFrom_common_append shared]
  have below : ∀ utxo ∈ (scanFrom bitcoin addresses 0 common .new).utxos,
      decide (utxo.height ≤ fork) = true := common_below shared
  have sufficient : SpentAgain bitcoin addresses common old new →
      rescanned bitcoin addresses wallet fork save new =
        (scanFrom bitcoin addresses 0 (common ++ new) .new).utxos := by
    intro spentAgain
    rw [again, scanFrom_common_append shared]
    apply replay_rollback below (branch_above fork old)
    simpa only [spent_scanEvents, SpentAgain] using spentAgain
  have necessary : (∀ utxo, utxo ∈ rescanned bitcoin addresses wallet fork save new ↔
      utxo ∈ (scanFrom bitcoin addresses 0 (common ++ new) .new).utxos) →
      SpentAgain bitcoin addresses common old new := by
    intro same
    rw [again, scanFrom_common_append shared] at same
    have taken := taken_of_replay_rollback below (branch_above fork old)
      (branch_above fork new) same
    simpa only [spent_scanEvents, SpentAgain] using taken
  exact ⟨⟨fun same => necessary fun utxo => by rw [same], sufficient⟩,
    ⟨necessary, fun spentAgain utxo => by rw [sufficient spentAgain]⟩⟩

end Rescan

/-! ## One payment and its spending -/

namespace Payment

def bitcoin : Bitcoin where
  txidToString txid := hexEncode txid.toList
  txidFromStr _ := none
  addressScript address := if address = "wallet" then some [0x51] else none
  addressHash160 _ := .error "unreadable"
  p2wshAddress _ := ""
  sha256 _ := zeroHash
  deserialize _ := .error "unreadable"

def paying : Transaction where
  txid := List.Vector.replicate 32 1
  input := []
  output := [⟨5000, [0x51]⟩]
  isCoinbase := false

/-- A transaction that spends the payment and pays someone else. -/
def spending : Transaction where
  txid := List.Vector.replicate 32 2
  input := [⟨List.Vector.replicate 32 1, 0, []⟩]
  output := [⟨4000, [0x52]⟩]
  isCoinbase := false

def wallet : BtcWallet where
  utxos := scanFrom bitcoin ["wallet"] 0 [[paying], [spending]] .new
  file := none
  lastScannedHeight := 2
  rescanOnSync := false
  completedScan := none
  synced := true

end Payment

theorem rescan_agrees_of_spent_again :
    Payment.wallet.utxos.reserved = ∅ ∧
      Payment.wallet.utxos.utxos = (scanFrom Payment.bitcoin ["wallet"] 0
        ([[Payment.paying]] ++ [[Payment.spending]]) .new).utxos ∧
      rescanned Payment.bitcoin ["wallet"] Payment.wallet 0 (.ok ()) [[], [Payment.spending]] =
        (scanFrom Payment.bitcoin ["wallet"] 0
          ([[Payment.paying]] ++ [[], [Payment.spending]]) .new).utxos :=
  ⟨rfl, rfl, (rescan_agrees_iff rfl rfl rfl (.ok ())).1.mpr
    (by simp [SpentAgain, spentOutpoints, Payment.spending])⟩

/-- The old chain spends the payment and the new one does not: the rescan finds nothing and
a fresh scan finds the payment. -/
theorem rescan_loses_payment :
    Payment.wallet.utxos.utxos = (scanFrom Payment.bitcoin ["wallet"] 0
        ([[Payment.paying]] ++ [[Payment.spending]]) .new).utxos ∧
      rescanned Payment.bitcoin ["wallet"] Payment.wallet 0 (.ok ()) [[], []] = [] ∧
      (scanFrom Payment.bitcoin ["wallet"] 0 ([[Payment.paying]] ++ [[], []]) .new).total =
        5000 := by
  decide

end Btc

end Vtorrent
