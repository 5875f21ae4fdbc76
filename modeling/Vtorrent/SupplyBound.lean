import Vtorrent.ClaimedAddresses
import Vtorrent.ReplayedState
import Vtorrent.ValueAccounting

/-!
# The supply covers everything above genesis

What is unspent above genesis, together with the part of the snapshot nobody has
claimed yet, never exceeds the total supply.  The claim markers of the genesis
distribution are data carriers and can never be spent, a claim pays out exactly the
balance it takes from the unclaimed part, and every other transaction adds to the
supply what it creates beyond its inputs.
-/

namespace Vtorrent

open Std Retained FiniteMap MainChain

def aboveGenesis (utxo : Utxo) : Nat :=
  if utxo.height = 0 then 0 else utxo.value.toNat

def Network.snapshotTotal (network : Network) : Nat :=
  (network.legacySnapshot.map fun entry => entry.2.toNat).sum

def Network.claimedTotal (network : Network) (claimed : Finset String) : Nat :=
  ∑ address ∈ claimed, (network.getLegacyBalance address).toNat

theorem toNat_maxSupply : maxSupply.toNat = 2000000000000000 := rfl

theorem toNat_maxMoney : maxMoney.toNat = 2000000000000000 := rfl

section Snapshot

def balanceIn (entries : List (String × UInt64)) (address : String) : Nat :=
  match entries.find? fun entry => entry.1 == address with
  | some entry => entry.2.toNat
  | none => 0

theorem balanceIn_cons (entry : String × UInt64) (rest : List (String × UInt64))
    (address : String) : balanceIn (entry :: rest) address =
      if address = entry.1 then entry.2.toNat else balanceIn rest address := by
  by_cases same : address = entry.1
  · simp [balanceIn, same]
  · simp [balanceIn, same, Ne.symm same]

theorem Network.toNat_getLegacyBalance (network : Network) (address : String) :
    (network.getLegacyBalance address).toNat =
      balanceIn network.legacySnapshot address := by
  unfold getLegacyBalance balanceIn
  cases network.legacySnapshot.find? fun entry => entry.1 == address with
  | none => rfl
  | some entry => rfl

theorem sum_balanceIn_le (entries : List (String × UInt64)) (claimed : Finset String) :
    ∑ address ∈ claimed, balanceIn entries address ≤
      (entries.map fun entry => entry.2.toNat).sum := by
  induction entries generalizing claimed with
  | nil => simp [balanceIn]
  | cons entry rest ih =>
      have others : ∑ address ∈ claimed.erase entry.1, balanceIn (entry :: rest) address =
          ∑ address ∈ claimed.erase entry.1, balanceIn rest address := by
        apply Finset.sum_congr rfl
        intro address member
        rw [balanceIn_cons, if_neg (Finset.ne_of_mem_erase member)]
      calc ∑ address ∈ claimed, balanceIn (entry :: rest) address
          ≤ ∑ address ∈ insert entry.1 (claimed.erase entry.1),
              balanceIn (entry :: rest) address := by
            apply Finset.sum_le_sum_of_subset
            exact Finset.subset_insert_iff.mpr (Finset.Subset.refl _)
        _ = entry.2.toNat + ∑ address ∈ claimed.erase entry.1, balanceIn rest address := by
            rw [Finset.sum_insert (Finset.notMem_erase _ _), balanceIn_cons, if_pos rfl,
              others]
        _ ≤ _ := by
            rw [List.map_cons, List.sum_cons]
            exact Nat.add_le_add_left (ih _) _

theorem Network.claimedTotal_le (network : Network) (claimed : Finset String) :
    network.claimedTotal claimed ≤ network.snapshotTotal := by
  simp only [claimedTotal, toNat_getLegacyBalance]
  exact sum_balanceIn_le network.legacySnapshot claimed

theorem Network.claimedTotal_insert (network : Network) {claimed : Finset String}
    {address : String} (unclaimed : address ∉ claimed) :
    network.claimedTotal (insert address claimed) =
      (network.getLegacyBalance address).toNat + network.claimedTotal claimed :=
  Finset.sum_insert unclaimed

theorem Network.balance_le (network : Network) (address : String) :
    (network.getLegacyBalance address).toNat ≤ network.snapshotTotal := by
  have single := network.claimedTotal_le {address}
  rwa [claimedTotal, Finset.sum_singleton] at single

end Snapshot

section Unspendable

variable {crypto : Crypto} {context : BlockContext} {tx : Transaction} {index : Nat}
  {input : TxInput} {utxo : Utxo}

/-- A script that begins with `OP_RETURN` never runs to the end. -/
theorem Engine.run_opReturn (env : ScriptEnv) (rest : Bytes) (start after : Stacks) :
    run crypto env ⟨0x6a :: rest⟩ start ≠ .ok after := by
  intro ran
  rw [run, Checked.bind_eq_ok] at ran
  obtain ⟨_, -, ran⟩ := ran
  rw [Checked.bind_eq_ok] at ran
  obtain ⟨state, items, -⟩ := ran
  have first : (Script.mk (0x6a :: rest)).items =
      .opcode 0x6a :: Script.itemsWithin rest.length rest := rfl
  rw [first] at items
  cases items

theorem not_authorized_of_opReturn (notClaim : tx.isLegacyClaim = false)
    (carrier : byteAt utxo.scriptPubkey 0 0x6a) :
    authorizeSpend crypto context tx index input utxo ≠ .ok () := by
  intro authorized
  unfold authorizeSpend at authorized
  rw [notClaim, if_neg Bool.false_ne_true, Checked.bind_eq_ok] at authorized
  obtain ⟨_, verified, -⟩ := authorized
  rw [verifyScripts, Checked.bind_eq_ok] at verified
  obtain ⟨scriptSig, -, verified⟩ := verified
  rw [Checked.bind_eq_ok] at verified
  obtain ⟨scriptPubkey, parsed, executed⟩ := verified
  rw [Checked.mapError_eq_ok] at parsed executed
  obtain rfl : scriptPubkey = ⟨utxo.scriptPubkey⟩ := by
    unfold Script.fromBytes at parsed
    split at parsed
    · cases parsed
    · exact (Except.ok.inj parsed).symm
  rw [Engine.execute, Checked.bind_eq_ok] at executed
  obtain ⟨afterSig, -, executed⟩ := executed
  rw [Checked.bind_eq_ok] at executed
  obtain ⟨afterPubkey, ran, -⟩ := executed
  cases bytes : utxo.scriptPubkey with
  | nil => simp [bytes, byteAt] at carrier
  | cons first rest =>
      rw [bytes] at carrier ran
      obtain rfl : first = 0x6a := by simpa [byteAt] using carrier
      exact Engine.run_opReturn _ rest _ _ ran

end Unspendable

/-- Outputs of genesis carry no value or only data. -/
def GenesisMarked (utxos : UtxoSet) : Prop :=
  ∀ (key : OutPoint) (utxo : Utxo), utxos[key]? = some utxo → utxo.height = 0 →
    utxo.value = 0 ∨ byteAt utxo.scriptPubkey 0 0x6a

structure Solvent (network : Network) (ledger : Ledger) : Prop where
  snapshot : network.snapshotTotal ≤ maxSupply.toNat
  supply : ledger.totalSupply ≤ maxSupply
  marked : GenesisMarked ledger.utxoSet
  covered : total aboveGenesis ledger.utxoSet + network.snapshotTotal ≤
    ledger.totalSupply.toNat + network.claimedTotal ledger.claimedAddresses

theorem Solvent.total_le {network : Network} {ledger : Ledger}
    (solvent : Solvent network ledger) :
    total aboveGenesis ledger.utxoSet ≤ ledger.totalSupply.toNat := by
  have claimed := network.claimedTotal_le ledger.claimedAddresses
  have covered := solvent.covered
  omega

/-- The same in the middle of a block, as long as the block has not minted more than
the cap already. -/
structure Balanced (network : Network) (state : Applying) : Prop where
  snapshot : network.snapshotTotal ≤ maxSupply.toNat
  supply : state.totalSupply ≤ maxSupply
  marked : GenesisMarked state.utxoSet
  covered : state.journal.supplyDelta ≤ maxSupply →
    total aboveGenesis state.utxoSet + network.snapshotTotal ≤
      state.totalSupply.toNat + state.journal.supplyDelta.toNat +
        network.claimedTotal state.claimedAddresses

section Step

variable {network : Network} {context : BlockContext} {tx : Transaction}
  {state after : Applying}

theorem Effect.aboveGenesis_spent (effect : Effect network context tx state after)
    (marked : GenesisMarked state.utxoSet) (notClaim : tx.isLegacyClaim = false) :
    ∀ spending ∈ spentBy state.utxoSet 0 tx.spendable,
      aboveGenesis spending.utxo = spending.utxo.value.toNat := by
  intro spending member
  unfold aboveGenesis
  split
  · rename_i atGenesis
    rcases marked _ _ (spentBy_held member) atGenesis with zero | carrier
    · rw [zero]
      rfl
    · exact absurd (effect.authorized spending member)
        (not_authorized_of_opReturn notClaim carrier)
  · rfl

theorem Effect.marked (effect : Effect network context tx state after)
    (aboveZero : context.height ≠ 0) (marked : GenesisMarked state.utxoSet) :
    GenesisMarked after.utxoSet := by
  intro key utxo held atGenesis
  rcases effect.held held with ⟨created, -⟩ | old
  · obtain ⟨i, output, -, -, rfl⟩ := mem_createdBy created
    exact absurd atGenesis aboveZero
  · exact marked key utxo old atGenesis

theorem totalOutput_of_claim {address : String} {balance : UInt64}
    (named : tx.claimAddress = some address)
    (checked : validateLegacyClaim network.crypto tx balance = .ok ()) :
    tx.totalOutput = balance := by
  rw [validateLegacyClaim, Checked.bind_eq_ok] at checked
  obtain ⟨_, -, checked⟩ := checked
  simp only [named, Checked.bind_eq_ok, Checked.rejectIf_eq_ok] at checked
  obtain ⟨_, -, _, exactly, -⟩ := checked
  simpa using exactly

theorem toNat_totalOutput (tx : Transaction) : tx.totalOutput.toNat =
    min (tx.outputs.map fun output => output.value.toNat).sum (2 ^ 64 - 1) := by
  rw [Transaction.totalOutput, toNat_saturatingSum, List.map_map]
  rfl

theorem toNat_totalSpent (utxos : UtxoSet) (tx : Transaction) :
    (totalSpent utxos tx).toNat = min ((spentBy utxos 0 tx.spendable).map fun spending =>
      spending.utxo.value.toNat).sum (2 ^ 64 - 1) := by
  rw [totalSpent, toNat_saturatingSum, List.map_map]
  rfl

theorem aboveGenesis_le (utxo : Utxo) : aboveGenesis utxo ≤ utxo.value.toNat := by
  unfold aboveGenesis
  split
  · exact Nat.zero_le _
  · exact le_rfl

theorem Balanced.effect (balanced : Balanced network state)
    (effect : Effect network context tx state after)
    (fresh : FreshTxid network.crypto tx state.utxoSet) (wellFormed : WellFormed tx)
    (aboveZero : context.height ≠ 0) : Balanced network after := by
  refine ⟨balanced.snapshot, effect.totalSupply ▸ balanced.supply,
    effect.marked aboveZero balanced.marked, fun within => ?_⟩
  have totals := effect.total fresh aboveGenesis
  have created : ((createdBy network context tx 0 tx.outputs).map aboveGenesis).sum ≤
      (tx.outputs.map fun output => output.value.toNat).sum :=
    sum_createdBy_le aboveGenesis_le 0 tx.outputs
  have snapshot := balanced.snapshot
  have supply := UInt64.le_iff_toNat_le.mp balanced.supply
  have minted := congrArg UInt64.toNat effect.supplyDelta
  rw [toNat_saturatingAdd] at minted
  rw [UInt64.le_iff_toNat_le] at within
  have earlier : state.journal.supplyDelta ≤ maxSupply := by
    rw [UInt64.le_iff_toNat_le]
    rw [toNat_maxSupply] at within ⊢
    omega
  have covered := balanced.covered earlier
  have claimed := network.claimedTotal_le state.claimedAddresses
  have output := toNat_totalOutput tx
  rw [UInt64.le_iff_toNat_le] at earlier
  rw [toNat_maxSupply] at within earlier snapshot supply
  rw [effect.totalSupply]
  by_cases isClaim : tx.isLegacyClaim = true
  · have isType : tx.txType = .legacyClaim := by simpa [Transaction.isLegacyClaim] using isClaim
    obtain ⟨named, inputless⟩ := wellFormed.claim isType
    obtain ⟨address, named⟩ := Option.isSome_iff_exists.mp named
    have claims : tx.claims = some address := by simp [Transaction.claims, isClaim, named]
    obtain ⟨unclaimed, checked⟩ := effect.claims address claims
    have paid := congrArg UInt64.toNat (totalOutput_of_claim named checked)
    have balance := network.balance_le address
    have spentNone : tx.spendable = [] := by
      rw [Transaction.spendable, inputless, ite_self]
    have noDelta : computeSupplyDelta tx (totalSpent state.utxoSet tx) tx.totalOutput =
        0 := by
      simp [computeSupplyDelta, isClaim, named]
    rw [noDelta] at minted
    rw [spentNone] at totals
    rw [effect.claimedAddresses_of_claims claims, network.claimedTotal_insert unclaimed]
    simp only [spentBy, List.map_nil, List.sum_nil, UInt64.toNat_zero] at totals minted
    omega
  · have notClaim : tx.isLegacyClaim = false := by simpa using isClaim
    have claims : tx.claims = none := by simp [Transaction.claims, notClaim]
    have input := toNat_totalSpent state.utxoSet tx
    have spent : ((spentBy state.utxoSet 0 tx.spendable).map fun spending =>
        aboveGenesis spending.utxo).sum =
        ((spentBy state.utxoSet 0 tx.spendable).map fun spending =>
          spending.utxo.value.toNat).sum :=
      congrArg List.sum (List.map_congr_left
        (effect.aboveGenesis_spent balanced.marked notClaim))
    have delta : (computeSupplyDelta tx (totalSpent state.utxoSet tx)
        tx.totalOutput).toNat = tx.totalOutput.toNat -
          (totalSpent state.utxoSet tx).toNat := by
      simp [computeSupplyDelta, notClaim]
    rw [delta] at minted
    rw [effect.claimedAddresses_of_none claims]
    have below : ((spentBy state.utxoSet 0 tx.spendable).map fun spending =>
        aboveGenesis spending.utxo).sum ≤ total aboveGenesis state.utxoSet := by
      have split := total_eraseInputs aboveGenesis state.utxoSet 0 tx.spendable
      omega
    omega

end Step

section Block

variable {network : Network} {options : ChainOptions} {context : BlockContext}
  {pool applied txs : List Transaction} {before after : Ledger} {journal : BlockJournal}

theorem checkSupply_eq_ok {totalSupply supplyDelta : UInt64}
    (checked : checkSupply totalSupply supplyDelta = .ok ()) :
    totalSupply.toNat + supplyDelta.toNat ≤ maxSupply.toNat := by
  rw [checkSupply, Checked.rejectIf_eq_ok, decide_eq_false_iff_not, gt_iff_lt,
    UInt64.lt_iff_toNat_lt, toNat_saturatingAdd, toNat_maxSupply] at checked
  rw [toNat_maxSupply]
  omega

theorem toNat_commit_totalSupply (crypto : Crypto) {state : Applying}
    (checked : checkSupply state.totalSupply state.journal.supplyDelta = .ok ()) :
    (state.commit crypto).totalSupply.toNat =
      state.totalSupply.toNat + state.journal.supplyDelta.toNat := by
  have within := checkSupply_eq_ok checked
  rw [toNat_maxSupply] at within
  change (saturatingAdd state.totalSupply state.journal.supplyDelta).toNat = _
  rw [toNat_saturatingAdd]
  omega

theorem Solvent.start (solvent : Solvent network before) {begun : Applying}
    (ran : beginGovernanceBlock context (.start context before) = .ok () begun) :
    Balanced network begun := by
  rw [beginGovernanceBlock_eq_ok ran]
  exact ⟨solvent.snapshot, solvent.supply, solvent.marked, fun _ => solvent.covered⟩

theorem Balanced.commit {state : Applying} (balanced : Balanced network state)
    (checked : checkSupply state.totalSupply state.journal.supplyDelta = .ok ()) :
    Solvent network (state.commit network.crypto).toLedger := by
  have within := checkSupply_eq_ok checked
  have supply := toNat_commit_totalSupply network.crypto checked
  refine ⟨balanced.snapshot, ?_, balanced.marked, ?_⟩
  · rw [UInt64.le_iff_toNat_le, supply]
    exact within
  · rw [supply]
    apply balanced.covered
    rw [UInt64.le_iff_toNat_le]
    omega

theorem Solvent.applyBlockJournaled (solvent : Solvent network before)
    (admissible : Admissible network.crypto pool applied before txs)
    (wellFormed : ∀ tx ∈ txs, WellFormed tx) (aboveZero : context.height ≠ 0)
    (ran : applyBlockJournaled network context txs before = .ok journal after) :
    Solvent network after := by
  obtain ⟨begun, done, began, finished, checked, rfl, -⟩ := applyBlockJournaled_eq_ok ran
  refine Balanced.commit ?_ checked
  refine (admissible.began began).applyTransactions_invariant (Balanced network)
    admissible.distinct admissible.subset admissible.unrepeated ?_ finished
    (solvent.start began)
  intro tx member state after effect fresh balanced
  exact balanced.effect effect fresh (wellFormed tx member) aboveZero

end Block

section Genesis

variable {network : Network} {options : ChainOptions} {ledger : Ledger}
  {journal : BlockJournal} {state after : Applying}

/-- Everything held after genesis stands at height zero and is a marker. -/
structure Seeded (utxos : UtxoSet) : Prop where
  height : ∀ (key : OutPoint) (utxo : Utxo), utxos[key]? = some utxo → utxo.height = 0
  marked : GenesisMarked utxos

theorem Seeded.effect {tx : Transaction} (seeded : Seeded state.utxoSet)
    (effect : Effect network (genesisContext network) tx state after)
    (outputs : ∀ output ∈ tx.outputs,
      output.value = 0 ∨ byteAt output.scriptPubkey 0 0x6a) :
    Seeded after.utxoSet := by
  constructor
  · intro key utxo held
    rcases effect.held held with ⟨created, -⟩ | old
    · obtain ⟨i, output, -, -, rfl⟩ := mem_createdBy created
      rfl
    · exact seeded.height key utxo old
  · intro key utxo held atGenesis
    rcases effect.held held with ⟨created, -⟩ | old
    · obtain ⟨i, output, found, -, rfl⟩ := mem_createdBy created
      exact outputs output (List.mem_of_getElem? found)
    · exact seeded.marked key utxo old atGenesis

theorem genesis_effects (applied : applyBlockJournaled network (genesisContext network)
      network.genesisBlock.transactions Ledger.empty = .ok journal ledger) :
    ∃ middle done : Applying,
      Effect network (genesisContext network) genesisCoinbase
        (.start (genesisContext network) Ledger.empty) middle ∧
      Effect network (genesisContext network) network.legacyDistribution middle done ∧
      checkSupply done.totalSupply done.journal.supplyDelta = .ok () ∧
      ledger = (done.commit network.crypto).toLedger := by
  obtain ⟨begun, done, began, finished, checked, rfl, -⟩ :=
    applyBlockJournaled_eq_ok applied
  obtain rfl : begun = .start (genesisContext network) Ledger.empty := by
    rw [beginGovernanceBlock, modify_eq_ok] at began
    exact began.symm
  have listed : network.genesisBlock.transactions =
      [genesisCoinbase, network.legacyDistribution] := rfl
  rw [listed, applyTransactions, bind_eq_ok] at finished
  obtain ⟨_, middle, first, finished⟩ := finished
  rw [applyTransactions, bind_eq_ok] at finished
  obtain ⟨_, last, second, finished⟩ := finished
  obtain ⟨-, rfl⟩ := pure_eq_ok.mp finished
  exact ⟨middle, last, applyTransaction_eq_ok first, applyTransaction_eq_ok second,
    checked, rfl⟩

theorem genesisCoinbase_outputs : ∀ output ∈ genesisCoinbase.outputs,
    output.value = 0 ∨ byteAt output.scriptPubkey 0 0x6a := by
  simp [genesisCoinbase]

theorem legacyDistribution_outputs : ∀ output ∈ network.legacyDistribution.outputs,
    output.value = 0 ∨ byteAt output.scriptPubkey 0 0x6a := by
  intro output member
  obtain ⟨entry, -, rfl⟩ := List.mem_map.mp member
  exact .inr rfl

theorem genesis_seeded
    (first : Effect network (genesisContext network) genesisCoinbase
      (.start (genesisContext network) Ledger.empty) state)
    (second : Effect network (genesisContext network) network.legacyDistribution
      state after) : Seeded after.utxoSet := by
  have empty : Seeded (Applying.start (genesisContext network) Ledger.empty).utxoSet := by
    constructor
    · simp [Applying.start, Ledger.empty]
    · intro key utxo held
      simp [Applying.start, Ledger.empty] at held
  exact (empty.effect first genesisCoinbase_outputs).effect second
    legacyDistribution_outputs

theorem genesis_solvent (applied : applyBlockJournaled network (genesisContext network)
      network.genesisBlock.transactions Ledger.empty = .ok journal ledger) :
    Solvent network ledger := by
  obtain ⟨middle, done, first, second, checked, rfl⟩ := genesis_effects applied
  have seeded := genesis_seeded first second
  have nothing : total aboveGenesis done.utxoSet = 0 := by
    calc total aboveGenesis done.utxoSet = total (fun _ => 0) done.utxoSet :=
          total_congr fun key utxo held => if_pos (seeded.height key utxo held)
      _ = 0 := by simp [total]
  have claimed : done.claimedAddresses = ∅ := by
    rw [second.claimedAddresses_of_none rfl, first.claimedAddresses_of_none rfl]
    rfl
  have noSupply : done.totalSupply = 0 := by
    rw [second.totalSupply, first.totalSupply]
    rfl
  have within := checkSupply_eq_ok checked
  have supply := toNat_commit_totalSupply network.crypto checked
  have minted : done.journal.supplyDelta.toNat =
      min network.snapshotTotal (2 ^ 64 - 1) := by
    have fromFirst : middle.journal.supplyDelta = 0 := by
      rw [first.supplyDelta]
      rfl
    have spentNothing : totalSpent middle.utxoSet network.legacyDistribution = 0 := rfl
    rw [second.supplyDelta, fromFirst, spentNothing, computeSupplyDelta,
      if_neg (by simp [Network.legacyDistribution])]
    simp only [toNat_saturatingAdd, toNat_saturatingSub, toNat_totalOutput]
    simp [Network.legacyDistribution, Network.snapshotTotal, Function.comp_def]
  rw [noSupply, toNat_maxSupply] at within
  rw [noSupply] at supply
  simp only [UInt64.toNat_zero, Nat.zero_add] at within supply
  have exactly : done.journal.supplyDelta.toNat = network.snapshotTotal := by omega
  refine ⟨?_, ?_, seeded.marked, ?_⟩
  · rw [toNat_maxSupply]
    omega
  · rw [UInt64.le_iff_toNat_le, supply, toNat_maxSupply]
    exact within
  · rw [supply, exactly]
    change total aboveGenesis done.utxoSet + _ ≤ _
    rw [nothing]
    omega

end Genesis

theorem MainChain.Replays.solvent {network : Network} {options : ChainOptions}
    {pool : List Transaction} {main : List Block} {ledger : Ledger}
    {journals : List BlockJournal}
    (replays : Replays network options main ledger journals)
    (distinct : DistinctTxids network.crypto pool)
    (subset : ∀ tx ∈ transactions main, tx ∈ pool) : Solvent network ledger := by
  refine replays.invariant (fun _ => Solvent network) distinct subset ?_ ?_
  · intro ledger journal applied
    exact genesis_solvent applied
  · intro main ledger journals block journal after earlier next admissible solvent
    refine solvent.applyBlockJournaled admissible (earlier.wellFormed next.valid) ?_
      next.applied
    exact Nat.ne_of_gt (List.length_pos_iff.mpr earlier.ne_nil)

/-- In every reachable state the supply is within its cap and covers everything
unspent above genesis, and no legacy address was paid out twice on the main chain. -/
theorem supply_covers_unspent {network : Network} {options : ChainOptions}
    {fresh : Chain} {deliveries : List Delivery}
    (created : Chain.newWith network options = .ok fresh)
    (distinct : DistinctTxids network.crypto (poolOf network deliveries)) :
    (fresh.deliverAll network deliveries).totalSupply ≤ maxSupply ∧
      total aboveGenesis (fresh.deliverAll network deliveries).utxoSet ≤
        (fresh.deliverAll network deliveries).totalSupply.toNat ∧
      (claimsOf (transactions (fresh.deliverAll network deliveries).mainBodies)).Nodup := by
  obtain ⟨main, journals, reached⟩ :=
    reachable_replayed distinct (fun _ member => member) created
  have solvent := reached.held.replays.solvent distinct reached.held.pooled
  have once := reached.held.replays.claimsOnce.nodup
  refine ⟨solvent.supply, solvent.total_le, ?_⟩
  obtain ⟨blocks, rfl⟩ := reached.held.replays.head
  rw [reached.toTracks.mainBodies]
  rw [claimsOf, transactions, List.flatMap_cons, List.filterMap_append] at once
  exact (List.nodup_append.mp once).2.1

namespace Regtest

/-- The network with keys that own the address of the snapshot. -/
def claimable : Network := ⟨{ crypto with base58 := fun _ => "V1" }, [("V1", 500)]⟩

def withBody (block : Block) (body : List Transaction) : Block where
  header := { block.header with
    merkleRoot := computeMerkleRootFromTxids crypto (body.map (Transaction.txid crypto)) }
  transactions := body

def fullClaim : Transaction where
  version := 1
  txType := .legacyClaim
  inputs := []
  outputs := [⟨500, [0x51]⟩]
  lockTime := 0
  claimAddress := some "V1"
  claimSignature := some (List.replicate 65 31)

def claiming : List Block :=
  let first := mine network.genesisBlock.header 1 1 []
  [first, withBody (mine first.header 2 1 [])
    [{ coinbase 2 with outputs := [⟨1, [0x51]⟩] }, fullClaim]]

end Regtest

/-- All but the output of the first coinbase, which carries data, is unspent. -/
theorem claiming_supply_covers_unspent :
    let reached := (Regtest.freshOn Regtest.claimable).deliverAll Regtest.claimable
      (Regtest.deliveries Regtest.claiming)
    reached.totalSupply = 502 ∧ total aboveGenesis reached.utxoSet = 501 ∧
      claimsOf (transactions reached.mainBodies) = ["V1"] ∧
      reached.totalSupply ≤ maxSupply ∧
      total aboveGenesis reached.utxoSet ≤ reached.totalSupply.toNat ∧
      (claimsOf (transactions reached.mainBodies)).Nodup := by
  refine ⟨by decide +kernel, by decide +kernel, by decide +kernel, ?_⟩
  exact supply_covers_unspent (Regtest.newWith_freshOn (by decide +kernel)) (by decide +kernel)

end Vtorrent
