import Vtorrent.SupplyBound

/-!
# The staked supply counts the stakeable outputs

The staked supply is kept by signed changes and recounted when governance changes the
minimum stake.  Both agree with the sum over the stakeable outputs: values stay far
below the range of a signed 64-bit number, and the sum stays below the supply.
-/

namespace Vtorrent

open Std Retained FiniteMap MainChain

/-- What an output counts toward the staked supply. -/
def stakeWeight (params : ConsensusParams) (utxo : Utxo) : Nat :=
  if isStakeableWith params utxo then utxo.value.toNat else 0

/-- A value that validation accepted, or a marker of genesis. -/
def Weighable (utxo : Utxo) : Prop :=
  (utxo.height = 0 → utxo.value = 0 ∨ byteAt utxo.scriptPubkey 0 0x6a) ∧
    (utxo.height ≠ 0 → utxo.value ≤ maxMoney)

section Weights

variable {params : ConsensusParams} {utxo : Utxo}

theorem scriptTypeOf_carrier {script : Bytes} (carrier : byteAt script 0 0x6a) :
    scriptTypeOf script = none ∨ scriptTypeOf script = some .opReturn := by
  unfold scriptTypeOf Script.fromBytes
  split
  · rename_i parsed
    split at parsed <;> cases parsed
    right
    simp [classifyScript, carrier, byteAt]
  · exact .inl rfl

theorem Weighable.marker (weighable : Weighable utxo) (params : ConsensusParams)
    (atGenesis : utxo.height = 0) :
    stakeWeight params utxo = 0 ∧ stakedValue params utxo = 0 := by
  unfold stakeWeight stakedValue
  rcases weighable.1 atGenesis with zero | carrier
  · rw [zero]
    split <;> exact ⟨rfl, rfl⟩
  · have notStakeable : isStakeableWith params utxo = false := by
      unfold isStakeableWith
      rcases scriptTypeOf_carrier carrier with form | form <;> simp [form]
    simp [notStakeable]

/-- The signed reading of an output's value is exact. -/
theorem Weighable.stakedValue_eq (weighable : Weighable utxo) :
    stakedValue params utxo = (stakeWeight params utxo : Int) := by
  by_cases atGenesis : utxo.height = 0
  · obtain ⟨weightless, valueless⟩ := weighable.marker params atGenesis
    rw [weightless, valueless]
    rfl
  · have capped := UInt64.le_iff_toNat_le.mp (weighable.2 atGenesis)
    rw [toNat_maxMoney] at capped
    unfold stakedValue stakeWeight asI64
    split
    · rw [if_pos (by omega)]
    · rfl

theorem Weighable.stakeWeight_le (weighable : Weighable utxo) :
    stakeWeight params utxo ≤ aboveGenesis utxo := by
  by_cases atGenesis : utxo.height = 0
  · rw [(weighable.marker params atGenesis).1]
    exact Nat.zero_le _
  · unfold stakeWeight aboveGenesis
    rw [if_neg atGenesis]
    split
    · exact le_rfl
    · exact Nat.zero_le _

theorem stakeWeight_congr {other : ConsensusParams}
    (same : params.minStakeAmount = other.minStakeAmount) :
    stakeWeight params = stakeWeight other := by
  funext utxo
  have sameVerdict : isStakeableWith params utxo = isStakeableWith other utxo := by
    rw [isStakeableWith, isStakeableWith, same]
  rw [stakeWeight, stakeWeight, sameVerdict]

theorem sum_stakedValue (params : ConsensusParams) {utxos : List Utxo}
    (weighable : ∀ utxo ∈ utxos, Weighable utxo) :
    (utxos.map (stakedValue params)).sum =
      ((utxos.map (stakeWeight params)).sum : Int) := by
  induction utxos with
  | nil => rfl
  | cons utxo utxos ih =>
      rw [List.forall_mem_cons] at weighable
      simp only [List.map_cons, List.sum_cons, Nat.cast_add]
      rw [weighable.1.stakedValue_eq, ih weighable.2]

end Weights

def AllWeighable (utxos : UtxoSet) : Prop :=
  ∀ (key : OutPoint) (utxo : Utxo), utxos[key]? = some utxo → Weighable utxo

theorem AllWeighable.total_le {utxos : UtxoSet} (weighable : AllWeighable utxos)
    (params : ConsensusParams) :
    total (stakeWeight params) utxos ≤ total aboveGenesis utxos :=
  total_le_total fun key utxo held => (weighable key utxo held).stakeWeight_le

/-- The staked supply is the sum over the stakeable outputs. -/
structure StakedExactly (ledger : Ledger) : Prop where
  weighable : AllWeighable ledger.utxoSet
  exactly : ledger.totalStaked.toNat = total (stakeWeight ledger.params) ledger.utxoSet

/-- The same in the middle of a block, with the change not yet committed. -/
structure Restaking (state : Applying) : Prop where
  weighable : AllWeighable state.utxoSet
  exactly : (state.totalStaked.toNat : Int) + state.journal.stakedDelta =
    total (stakeWeight state.params) state.utxoSet

section Step

variable {network : Network} {context : BlockContext} {tx : Transaction}
  {state after : Applying}

theorem Restaking.effect (restaking : Restaking state)
    (effect : Effect network context tx state after)
    (fresh : FreshTxid network.crypto tx state.utxoSet)
    (created : ∀ utxo ∈ createdBy network context tx 0 tx.outputs, Weighable utxo) :
    Restaking after := by
  constructor
  · intro key utxo held
    rcases effect.held held with ⟨member, -⟩ | old
    · exact created utxo member
    · exact restaking.weighable key utxo old
  · have spentWeights : ((spentBy state.utxoSet 0 tx.spendable).map fun spending =>
        stakedValue state.params spending.utxo).sum =
        (((spentBy state.utxoSet 0 tx.spendable).map fun spending =>
          stakeWeight state.params spending.utxo).sum : Int) := by
      have spentWeighable : ∀ utxo ∈ (spentBy state.utxoSet 0 tx.spendable).map
          SpentInput.utxo, Weighable utxo := by
        intro utxo member
        obtain ⟨spending, inSpent, rfl⟩ := List.mem_map.mp member
        exact restaking.weighable _ _ (spentBy_held inSpent)
      simpa [List.map_map, Function.comp_def] using
        sum_stakedValue state.params spentWeighable
    have totals := effect.total fresh (stakeWeight state.params)
    have exactly := restaking.exactly
    rw [effect.totalStaked, effect.params, effect.stakedDelta, spentWeights,
      sum_stakedValue state.params created]
    omega

theorem WellFormed.weighable (wellFormed : WellFormed tx) (aboveZero : context.height ≠ 0) :
    ∀ utxo ∈ createdBy network context tx 0 tx.outputs, Weighable utxo := by
  intro utxo member
  obtain ⟨i, output, found, -, rfl⟩ := mem_createdBy member
  exact ⟨fun atGenesis => absurd atGenesis aboveZero,
    fun _ => wellFormed.outputs.capped output (List.mem_of_getElem? found)⟩

theorem toNat_sum (values : List UInt64) :
    values.sum.toNat = (values.map UInt64.toNat).sum % 2 ^ 64 := by
  induction values with
  | nil => rfl
  | cons value values ih =>
      rw [List.sum_cons, UInt64.toNat_add, ih, List.map_cons, List.sum_cons,
        Nat.add_mod_mod]

theorem total_stakeWeight (params : ConsensusParams) (utxos : UtxoSet) :
    total (stakeWeight params) utxos =
      (((values utxos).filter (isStakeableWith params)).map
        fun utxo => utxo.value.toNat).sum := by
  rw [total]
  induction values utxos with
  | nil => rfl
  | cons utxo utxos ih =>
      rw [List.map_cons, List.sum_cons, ih]
      by_cases stakeable : isStakeableWith params utxo = true
      · simp [stakeWeight, stakeable]
      · simp [stakeWeight, stakeable]

theorem toNat_stakeableTotal (params : ConsensusParams) (utxos : UtxoSet) :
    (stakeableTotal params utxos).toNat = total (stakeWeight params) utxos % 2 ^ 64 := by
  rw [stakeableTotal, toNat_sum, total_stakeWeight, List.map_map]
  rfl

/-- A recount and a kept total agree with the sum at the start of a block. -/
theorem StakedExactly.start {before : Ledger} {begun : Applying}
    (staked : StakedExactly before) (solvent : Solvent network before)
    (ran : beginGovernanceBlock context (.start context before) = .ok () begun) :
    Restaking begun := by
  have bounded := staked.weighable.total_le
  have covered := solvent.total_le
  have supply := UInt64.le_iff_toNat_le.mp solvent.supply
  rw [toNat_maxSupply] at supply
  rw [beginGovernanceBlock, modify_eq_ok] at ran
  split at ran
  · subst ran
    refine ⟨staked.weighable, ?_⟩
    set params := (before.governance.beginBlock context.height before.params
      before.utxoSet context.timestamp).2 with paramsDef
    have atParams := bounded params
    change (UInt64.toNat (if params.minStakeAmount ≠ before.params.minStakeAmount then
      stakeableTotal params before.utxoSet else before.totalStaked) : Int) + 0 =
        total (stakeWeight params) before.utxoSet
    split
    · rw [toNat_stakeableTotal]
      omega
    · rename_i same
      rw [staked.exactly, stakeWeight_congr (not_not.mp same), add_zero]
  · subst ran
    refine ⟨staked.weighable, ?_⟩
    change (before.totalStaked.toNat : Int) + 0 = total _ before.utxoSet
    rw [staked.exactly, add_zero]
    rfl

theorem toNat_addStaked {totalStaked : UInt64} {stakedDelta : Int} {sum : Nat}
    (exactly : (totalStaked.toNat : Int) + stakedDelta = sum) (small : sum < 2 ^ 64 - 1) :
    (addStaked totalStaked stakedDelta).toNat = sum := by
  unfold addStaked
  split
  · rename_i grows
    rw [toNat_saturatingAdd, UInt64.toNat_ofNat']
    omega
  · rename_i shrinks
    have := totalStaked.toNat_lt
    rw [toNat_saturatingSub, UInt64.toNat_ofNat']
    omega

theorem Restaking.commit (restaking : Restaking state)
    (solvent : Solvent network (state.commit network.crypto).toLedger) :
    StakedExactly (state.commit network.crypto).toLedger := by
  have bounded := restaking.weighable.total_le state.params
  have covered : total aboveGenesis state.utxoSet ≤ _ := solvent.total_le
  have supply := UInt64.le_iff_toNat_le.mp solvent.supply
  rw [toNat_maxSupply] at supply
  have small : total (stakeWeight state.params) state.utxoSet < 2 ^ 64 - 1 := by omega
  exact ⟨restaking.weighable, toNat_addStaked restaking.exactly small⟩

end Step

section Replay

variable {network : Network} {options : ChainOptions} {context : BlockContext}
  {pool applied txs : List Transaction} {before after : Ledger} {journal : BlockJournal}

theorem StakedExactly.applyBlockJournaled (staked : StakedExactly before)
    (solvent : Solvent network before)
    (admissible : Admissible network.crypto pool applied before txs)
    (wellFormed : ∀ tx ∈ txs, WellFormed tx) (aboveZero : context.height ≠ 0)
    (ran : applyBlockJournaled network context txs before = .ok journal after) :
    StakedExactly after := by
  have solventAfter := solvent.applyBlockJournaled admissible wellFormed aboveZero ran
  obtain ⟨begun, done, began, finished, -, rfl, -⟩ := applyBlockJournaled_eq_ok ran
  refine Restaking.commit ?_ solventAfter
  refine (admissible.began began).applyTransactions_invariant Restaking
    admissible.distinct admissible.subset admissible.unrepeated ?_ finished
    (staked.start solvent began)
  intro tx member state after effect fresh restaking
  exact restaking.effect effect fresh ((wellFormed tx member).weighable aboveZero)

theorem Effect.stakedDelta_genesis {tx : Transaction} {state after : Applying}
    (effect : Effect network (genesisContext network) tx state after)
    (inputless : tx.spendable = [])
    (outputs : ∀ output ∈ tx.outputs,
      output.value = 0 ∨ byteAt output.scriptPubkey 0 0x6a) :
    after.journal.stakedDelta = state.journal.stakedDelta := by
  have created : ((createdBy network (genesisContext network) tx 0 tx.outputs).map
      (stakedValue state.params)).sum = 0 := by
    apply List.sum_eq_zero
    intro change member
    obtain ⟨utxo, inCreated, rfl⟩ := List.mem_map.mp member
    obtain ⟨i, output, found, -, rfl⟩ := mem_createdBy inCreated
    have weighable : Weighable (createdUtxo network (genesisContext network) tx (0 + i)
        output) :=
      ⟨fun _ => outputs output (List.mem_of_getElem? found), fun above => absurd rfl above⟩
    exact (weighable.marker state.params rfl).2
  rw [effect.stakedDelta, created, inputless]
  simp [spentBy]

theorem genesis_stakedExactly
    (ran : Vtorrent.applyBlockJournaled network (genesisContext network)
      network.genesisBlock.transactions Ledger.empty = .ok journal after) :
    StakedExactly after := by
  have solvent := genesis_solvent ran
  obtain ⟨middle, done, first, second, -, rfl⟩ := genesis_effects ran
  have seeded := genesis_seeded first second
  have weighable : AllWeighable done.utxoSet := fun key utxo held =>
    ⟨seeded.marked key utxo held, fun above => absurd (seeded.height key utxo held) above⟩
  refine Restaking.commit ⟨weighable, ?_⟩ solvent
  have weightless : total (stakeWeight done.params) done.utxoSet = 0 := by
    calc total (stakeWeight done.params) done.utxoSet = total (fun _ => 0) done.utxoSet :=
          total_congr fun key utxo held =>
            ((weighable key utxo held).marker _ (seeded.height key utxo held)).1
      _ = 0 := by simp [total]
  have unchanged : done.journal.stakedDelta = 0 := by
    rw [second.stakedDelta_genesis rfl legacyDistribution_outputs,
      first.stakedDelta_genesis rfl genesisCoinbase_outputs]
    rfl
  rw [second.totalStaked, first.totalStaked, weightless, unchanged]
  rfl

theorem MainChain.Replays.stakedExactly {main : List Block} {ledger : Ledger}
    {journals : List BlockJournal}
    (replays : Replays network options main ledger journals)
    (distinct : DistinctTxids network.crypto pool)
    (subset : ∀ tx ∈ transactions main, tx ∈ pool) : StakedExactly ledger := by
  refine (replays.invariant (fun _ ledger => Solvent network ledger ∧ StakedExactly ledger)
    distinct subset ?_ ?_).2
  · intro ledger journal applied
    exact ⟨genesis_solvent applied, genesis_stakedExactly applied⟩
  · rintro main ledger journals block journal after earlier next admissible
      ⟨solvent, staked⟩
    have wellFormed := earlier.wellFormed next.valid
    have aboveZero : (context network options main block).height ≠ 0 :=
      Nat.ne_of_gt (List.length_pos_iff.mpr earlier.ne_nil)
    exact ⟨solvent.applyBlockJournaled admissible wellFormed aboveZero next.applied,
      staked.applyBlockJournaled solvent admissible wellFormed aboveZero next.applied⟩

end Replay

/-- In every reachable state the staked supply is the sum of the values of the
stakeable outputs under the parameters in force. -/
theorem totalStaked_eq_stakeable {network : Network} {options : ChainOptions}
    {fresh : Chain} {deliveries : List Delivery}
    (created : Chain.newWith network options = .ok fresh)
    (distinct : DistinctTxids network.crypto (poolOf network deliveries)) :
    (fresh.deliverAll network deliveries).totalStaked.toNat =
      (((values (fresh.deliverAll network deliveries).utxoSet).filter
        (isStakeableWith (fresh.deliverAll network deliveries).params)).map
          fun utxo => utxo.value.toNat).sum := by
  obtain ⟨main, journals, reached⟩ :=
    reachable_replayed distinct (fun _ member => member) created
  have staked := reached.held.replays.stakedExactly distinct reached.held.pooled
  rw [staked.exactly, total_stakeWeight]

namespace Regtest

def keyScript : Bytes :=
  0x76 :: 0xa9 :: 0x14 :: List.replicate 20 7 ++ [0x88, 0xac]

/-- A block on genesis whose coinbase pays a stakeable amount and some change. -/
def funding : Block :=
  let tx := { coinbase 1 with outputs := [⟨5 * 10 ^ 10, keyScript⟩, ⟨3, keyScript⟩] }
  let mined := mine network.genesisBlock.header 1 1 []
  { header := { mined.header with
      merkleRoot := computeMerkleRootFromTxids crypto [tx.txid crypto] }
    transactions := [tx] }

end Regtest

/-- Of the two outputs of the funding block only the large one counts. -/
theorem totalStaked_eq_stakeable_of_funding :
    let reached := Regtest.fresh.deliverAll Regtest.network
      (Regtest.deliveries [Regtest.funding])
    reached.totalStaked = 5 * 10 ^ 10 ∧
      reached.totalStaked.toNat = (((values reached.utxoSet).filter
        (isStakeableWith reached.params)).map fun utxo => utxo.value.toNat).sum :=
  ⟨by decide +kernel, totalStaked_eq_stakeable Regtest.newWith_eq (by decide +kernel)⟩

end Vtorrent
