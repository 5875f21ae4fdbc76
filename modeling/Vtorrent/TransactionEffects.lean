import Vtorrent.Ledger

/-!
# What a successful transaction does

Inversion of the phases of a transaction: the outputs it spent and created, the
checks they passed, and the fields each phase leaves alone.
-/

namespace Vtorrent

open Std Retained

def Applying.restake (state : Applying) (change : Int) : Applying :=
  { state with
    journal := { state.journal with stakedDelta := state.journal.stakedDelta + change } }

def stakedValue (params : ConsensusParams) (utxo : Utxo) : Int :=
  if isStakeableWith params utxo then asI64 utxo.value else 0

/-- An input together with the output it spends. -/
structure SpentInput where
  index : Nat
  input : TxInput
  utxo : Utxo

namespace Transaction

def spendable (tx : Transaction) : List TxInput :=
  if tx.isCoinbase then [] else tx.inputs

def claims (tx : Transaction) : Option String :=
  if tx.isLegacyClaim then tx.claimAddress else none

end Transaction

def spentBy : UtxoSet → Nat → List TxInput → List SpentInput
  | _, _, [] => []
  | utxos, index, input :: inputs =>
      match utxos[input.outPoint]? with
      | some utxo =>
          ⟨index, input, utxo⟩ :: spentBy (utxos.erase input.outPoint) (index + 1) inputs
      | none => spentBy utxos (index + 1) inputs

def eraseInputs (utxos : UtxoSet) (inputs : List TxInput) : UtxoSet :=
  inputs.foldl (fun utxos input => utxos.erase input.outPoint) utxos

def createdBy (network : Network) (context : BlockContext) (tx : Transaction) :
    Nat → List TxOutput → List Utxo
  | _, [] => []
  | vout, output :: outputs =>
      if isUtxoEligible output tx context.height then
        createdUtxo network context tx vout output ::
          createdBy network context tx (vout + 1) outputs
      else createdBy network context tx (vout + 1) outputs

def Utxo.outPoint (utxo : Utxo) : OutPoint := ⟨utxo.txid, utxo.vout⟩

def insertUtxos (utxos : UtxoSet) (created : List Utxo) : UtxoSet :=
  created.foldl (fun utxos utxo => utxos.insert utxo.outPoint utxo) utxos

theorem erase_eq_self {utxos : UtxoSet} {key : OutPoint} (absent : utxos[key]? = none) :
    utxos.erase key = utxos := by
  apply ExtTreeMap.ext_getElem?
  intro other
  rw [ExtTreeMap.getElem?_erase]
  by_cases same : key = other
  · subst same
    simp [absent]
  · simp [same]

theorem getElem?_eraseInputs (utxos : UtxoSet) (inputs : List TxInput) (key : OutPoint) :
    (eraseInputs utxos inputs)[key]? =
      if key ∈ inputs.map TxInput.outPoint then none else utxos[key]? := by
  induction inputs generalizing utxos with
  | nil => simp [eraseInputs]
  | cons input inputs ih =>
      have unfolded : eraseInputs utxos (input :: inputs) =
          eraseInputs (utxos.erase input.outPoint) inputs := rfl
      rw [unfolded, ih, ExtTreeMap.getElem?_erase]
      by_cases same : input.outPoint = key
      · simp [same]
      · simp [same, Ne.symm same]

theorem spentBy_held {utxos : UtxoSet} {index : Nat} {inputs : List TxInput}
    {spent : SpentInput} (member : spent ∈ spentBy utxos index inputs) :
    utxos[spent.input.outPoint]? = some spent.utxo := by
  induction inputs generalizing utxos index with
  | nil => simp [spentBy] at member
  | cons input inputs ih =>
      rw [spentBy] at member
      split at member
      · rename_i utxo held
        rcases List.mem_cons.mp member with rfl | later
        · exact held
        · have survived := ih later
          rw [ExtTreeMap.getElem?_erase] at survived
          split at survived
          · simp at survived
          · exact survived
      · exact ih member

def totalSpent (utxos : UtxoSet) (tx : Transaction) : UInt64 :=
  saturatingSum ((spentBy utxos 0 tx.spendable).map (·.utxo.value))

section Inversion

variable {network : Network} {context : BlockContext} {tx : Transaction}

theorem adjustStaked_eq_ok {counts : Bool} {change : Int} {reason : String}
    {state after : Applying} {result : Unit}
    (ran : adjustStaked counts change reason state = .ok result after) :
    after = state.restake (if counts then change else 0) := by
  unfold adjustStaked at ran
  cases counts with
  | false =>
      obtain ⟨-, rfl⟩ := pure_eq_ok.mp ran
      simp [Applying.restake]
  | true =>
      rw [if_pos rfl, bind_eq_ok] at ran
      obtain ⟨current, middle, got, checked⟩ := ran
      obtain ⟨rfl, rfl⟩ := get_eq_ok.mp got
      cases inRange : checkedI64 (state.journal.stakedDelta + change) with
      | none =>
          simp only [inRange] at checked
          exact (throw_eq_ok.mp checked).elim
      | some stakedDelta =>
          simp only [inRange] at checked
          have exactly : state.journal.stakedDelta + change = stakedDelta := by
            unfold checkedI64 at inRange
            split at inRange
            · exact Option.some.inj inRange
            · simp at inRange
          cases checked
          rw [← exactly]
          rfl

theorem spendUtxo_eq_ok {index : Nat} {input : TxInput} {utxo : Utxo}
    {spent spent' : SpentInputs} {state after : Applying}
    (ran : spendUtxo network context tx index input utxo spent state =
      .ok spent' after) :
    authorizeSpend network.crypto context tx index input utxo = .ok () ∧
      after = (state.remove input.outPoint utxo).restake
        (-stakedValue state.params utxo) ∧
      spent' = {
        totalInput := saturatingAdd spent.totalInput utxo.value
        stakeInput :=
          if tx.isCoinstake && index == 0 then some utxo else spent.stakeInput } := by
  rw [spendUtxo, bind_eq_ok] at ran
  obtain ⟨_, removed, removedRan, ran⟩ := ran
  rw [modify_eq_ok] at removedRan
  rw [bind_eq_ok] at ran
  obtain ⟨_, middle, authorized, ran⟩ := ran
  rw [ofExcept_eq_ok] at authorized
  obtain ⟨authorized, rfl⟩ := authorized
  rw [bind_eq_ok] at ran
  obtain ⟨current, middle, got, ran⟩ := ran
  obtain ⟨rfl, rfl⟩ := get_eq_ok.mp got
  rw [bind_eq_ok] at ran
  obtain ⟨_, adjusted, adjustedRan, ran⟩ := ran
  obtain ⟨rfl, rfl⟩ := pure_eq_ok.mp ran
  refine ⟨authorized, ?_, rfl⟩
  rw [adjustStaked_eq_ok adjustedRan, ← removedRan]
  have sameParams : (state.remove input.outPoint utxo).params = state.params := rfl
  rw [sameParams, stakedValue]
  split <;> rfl

theorem spendInput_eq_ok {index : Nat} {input : TxInput}
    {spent spent' : SpentInputs} {state after : Applying}
    (ran : spendInput network context tx index input spent state = .ok spent' after) :
    (tx.isLegacyClaim = true ∧ state.utxoSet[input.outPoint]? = none ∧
      spent' = spent ∧ after = state) ∨
    ∃ utxo, state.utxoSet[input.outPoint]? = some utxo ∧
      authorizeSpend network.crypto context tx index input utxo = .ok () ∧
      after = (state.remove input.outPoint utxo).restake
        (-stakedValue state.params utxo) ∧
      spent' = {
        totalInput := saturatingAdd spent.totalInput utxo.value
        stakeInput :=
          if tx.isCoinstake && index == 0 then some utxo else spent.stakeInput } := by
  rw [spendInput, bind_eq_ok] at ran
  obtain ⟨current, middle, got, ran⟩ := ran
  obtain ⟨rfl, rfl⟩ := get_eq_ok.mp got
  rw [bind_eq_ok] at ran
  obtain ⟨_, middle, unlocked, ran⟩ := ran
  obtain ⟨-, rfl⟩ := rejectIf_eq_ok.mp unlocked
  cases held : state.utxoSet[input.outPoint]? with
  | some utxo =>
      simp only [held] at ran
      exact .inr ⟨utxo, rfl, spendUtxo_eq_ok ran⟩
  | none =>
      simp only [held] at ran
      rw [bind_eq_ok] at ran
      obtain ⟨_, middle, claims, ran⟩ := ran
      obtain ⟨claims, rfl⟩ := rejectIf_eq_ok.mp claims
      obtain ⟨rfl, rfl⟩ := pure_eq_ok.mp ran
      exact .inl ⟨by simpa using claims, rfl, rfl, rfl⟩

/-- Everything a successful run over a list of inputs establishes. -/
structure Spends (network : Network) (context : BlockContext) (tx : Transaction)
    (index : Nat) (inputs : List TxInput) (spent : SpentInputs) (state : Applying)
    (spent' : SpentInputs) (after : Applying) : Prop where
  utxoSet : after.utxoSet = eraseInputs state.utxoSet inputs
  frame : after = { state with
    utxoSet := after.utxoSet
    journal := { state.journal with
      changes := after.journal.changes
      stakedDelta := after.journal.stakedDelta } }
  authorized : ∀ spending ∈ spentBy state.utxoSet index inputs,
    authorizeSpend network.crypto context tx spending.index spending.input
      spending.utxo = .ok ()
  found : tx.isLegacyClaim = false →
    (spentBy state.utxoSet index inputs).map SpentInput.input = inputs
  totalInput : spent'.totalInput =
    ((spentBy state.utxoSet index inputs).map (·.utxo.value)).foldl saturatingAdd
      spent.totalInput
  stakedDelta : after.journal.stakedDelta = state.journal.stakedDelta -
    ((spentBy state.utxoSet index inputs).map
      fun spending => stakedValue state.params spending.utxo).sum
  stakeInput : ∀ utxo, spent'.stakeInput = some utxo → spent.stakeInput = some utxo ∨
    ∃ spending ∈ spentBy state.utxoSet index inputs,
      spending.index = 0 ∧ spending.utxo = utxo

theorem spendInputs_eq_ok {index : Nat} {inputs : List TxInput}
    {spent spent' : SpentInputs} {state after : Applying}
    (ran : spendInputs network context tx index inputs spent state =
      .ok spent' after) :
    Spends network context tx index inputs spent state spent' after := by
  induction inputs generalizing index spent state with
  | nil =>
      obtain ⟨rfl, rfl⟩ := pure_eq_ok.mp ran
      exact ⟨rfl, rfl, by simp [spentBy], by simp [spentBy], rfl, by simp [spentBy],
        fun utxo same => .inl same⟩
  | cons input inputs ih =>
      rw [spendInputs, bind_eq_ok] at ran
      obtain ⟨middleSpent, middle, first, rest⟩ := ran
      have later := ih rest
      rcases spendInput_eq_ok first with
        ⟨claims, absent, rfl, rfl⟩ | ⟨utxo, held, authorized, rfl, rfl⟩
      · have spentEq : spentBy middle.utxoSet index (input :: inputs) =
            spentBy middle.utxoSet (index + 1) inputs := by
          rw [spentBy, absent]
        constructor
        · rw [later.utxoSet]
          change _ = eraseInputs (middle.utxoSet.erase input.outPoint) inputs
          rw [erase_eq_self absent]
        · exact later.frame
        · rw [spentEq]
          exact later.authorized
        · intro notClaim
          simp [claims] at notClaim
        · rw [spentEq]
          exact later.totalInput
        · rw [spentEq]
          exact later.stakedDelta
        · rw [spentEq]
          exact later.stakeInput
      · have spentEq : spentBy state.utxoSet index (input :: inputs) =
            ⟨index, input, utxo⟩ ::
              spentBy (state.utxoSet.erase input.outPoint) (index + 1) inputs := by
          rw [spentBy, held]
        constructor
        · exact later.utxoSet
        · rw [later.frame]
          rfl
        · rw [spentEq]
          intro spending member
          rcases List.mem_cons.mp member with rfl | member
          · exact authorized
          · exact later.authorized spending member
        · intro notClaim
          rw [spentEq, List.map_cons]
          exact congrArg _ (later.found notClaim)
        · rw [spentEq, List.map_cons, List.foldl_cons]
          exact later.totalInput
        · rw [spentEq, List.map_cons, List.sum_cons, later.stakedDelta]
          change state.journal.stakedDelta + -stakedValue state.params utxo - _ = _
          rw [← sub_eq_add_neg, sub_sub]
          rfl
        · intro staked same
          rw [spentEq]
          rcases later.stakeInput staked same with fromHere | ⟨spending, member, atZero⟩
          · dsimp only at fromHere
            split at fromHere
            · rename_i isStake
              refine .inr ⟨_, List.mem_cons_self, ?_, Option.some.inj fromHere⟩
              simpa using (Bool.and_eq_true_iff.mp isStake).2
            · exact .inl fromHere
          · exact .inr ⟨spending, List.mem_cons_of_mem _ member, atZero⟩

theorem spendPhase_eq_ok {spent : SpentInputs} {state after : Applying}
    (ran : spendPhase network context tx state = .ok spent after) :
    Spends network context tx 0 tx.spendable SpentInputs.none state spent after := by
  unfold spendPhase at ran
  unfold Transaction.spendable
  split at ran
  · rename_i coinbase
    rw [if_pos coinbase]
    exact spendInputs_eq_ok ran
  · rename_i other
    rw [if_neg other]
    exact spendInputs_eq_ok ran

theorem recordClaim_eq_ok {state after : Applying} {result : Unit}
    (ran : recordClaim network context tx state = .ok result after) :
    (tx.claimAddress = none ∧ context.height = 0 ∧ after = state) ∨
    ∃ address, tx.claimAddress = some address ∧ address ∉ state.claimedAddresses ∧
      validateLegacyClaim network.crypto tx (network.getLegacyBalance address) =
        .ok () ∧
      after = state.claim address := by
  unfold recordClaim at ran
  cases claimed : tx.claimAddress with
  | none =>
      simp only [claimed] at ran
      split at ran
      · rename_i atGenesis
        obtain ⟨-, rfl⟩ := rejectIf_eq_ok.mp ran
        exact .inl ⟨rfl, atGenesis, rfl⟩
      · exact (throw_eq_ok.mp ran).elim
  | some address =>
      simp only [claimed] at ran
      rw [bind_eq_ok] at ran
      obtain ⟨current, middle, got, ran⟩ := ran
      obtain ⟨rfl, rfl⟩ := get_eq_ok.mp got
      rw [bind_eq_ok] at ran
      obtain ⟨_, middle, checkedClaim, ran⟩ := ran
      obtain ⟨unclaimed, rfl⟩ := rejectIf_eq_ok.mp checkedClaim
      rw [bind_eq_ok] at ran
      obtain ⟨_, middle, checkedBalance, ran⟩ := ran
      obtain ⟨validated, rfl⟩ := ofExcept_eq_ok.mp checkedBalance
      rw [modify_eq_ok] at ran
      exact .inr ⟨address, rfl, of_decide_eq_false unclaimed,
        Checked.mapError_eq_ok.mp validated, ran.symm⟩

theorem claimPhase_eq_ok {state after : Applying} {result : Unit}
    (ran : claimPhase network context tx state = .ok result after) :
    (tx.isLegacyClaim = true → tx.claimAddress = none → context.height = 0) ∧
    (∀ address, tx.claims = some address → address ∉ state.claimedAddresses ∧
      validateLegacyClaim network.crypto tx (network.getLegacyBalance address) =
        .ok ()) ∧
    (∀ address, address ∈ after.claimedAddresses ↔
      tx.claims = some address ∨ address ∈ state.claimedAddresses) ∧
    after = { state with
      claimedAddresses := after.claimedAddresses
      journal := { state.journal with
        claimedAddresses := after.journal.claimedAddresses } } := by
  unfold claimPhase at ran
  unfold Transaction.claims
  split at ran
  · rename_i isClaim
    rw [bind_eq_ok] at ran
    obtain ⟨_, middle, recorded, ran⟩ := ran
    obtain ⟨-, rfl⟩ := ofExcept_eq_ok.mp ran
    rcases recordClaim_eq_ok recorded with
      ⟨unnamed, atGenesis, rfl⟩ | ⟨address, named, unclaimed, validated, rfl⟩
    · simp [isClaim, unnamed, atGenesis]
    · refine ⟨by simp [named], ?_, ?_, rfl⟩
      · intro other same
        rw [if_pos isClaim, named] at same
        cases same
        exact ⟨unclaimed, validated⟩
      · intro other
        simp [isClaim, named, Applying.claim, eq_comm]
  · rename_i notClaim
    obtain ⟨-, rfl⟩ := pure_eq_ok.mp ran
    simp [notClaim]

theorem createOutput_eq_ok {vout : Nat} {output : TxOutput} {state after : Applying}
    {result : Unit}
    (ran : createOutput network context tx vout output state = .ok result after) :
    (isUtxoEligible output tx context.height = false ∧ after = state) ∨
    (isUtxoEligible output tx context.height = true ∧
      after = (state.restake (stakedValue state.params
        (createdUtxo network context tx vout output))).add
          (createdUtxo network context tx vout output).outPoint
          (createdUtxo network context tx vout output)) := by
  unfold createOutput at ran
  split at ran
  · rename_i eligible
    rw [bind_eq_ok] at ran
    obtain ⟨current, middle, got, ran⟩ := ran
    obtain ⟨rfl, rfl⟩ := get_eq_ok.mp got
    rw [bind_eq_ok] at ran
    obtain ⟨_, middle, adjusted, ran⟩ := ran
    rw [modify_eq_ok] at ran
    refine .inr ⟨eligible, ?_⟩
    rw [← ran, adjustStaked_eq_ok adjusted, stakedValue]
    rfl
  · rename_i ineligible
    obtain ⟨-, rfl⟩ := pure_eq_ok.mp ran
    exact .inl ⟨by simpa using ineligible, rfl⟩

/-- Everything a successful run over a list of outputs establishes. -/
structure Creates (network : Network) (context : BlockContext) (tx : Transaction)
    (vout : Nat) (outputs : List TxOutput) (state after : Applying) : Prop where
  utxoSet : after.utxoSet =
    insertUtxos state.utxoSet (createdBy network context tx vout outputs)
  frame : after = { state with
    utxoSet := after.utxoSet
    journal := { state.journal with
      changes := after.journal.changes
      stakedDelta := after.journal.stakedDelta } }
  stakedDelta : after.journal.stakedDelta = state.journal.stakedDelta +
    ((createdBy network context tx vout outputs).map (stakedValue state.params)).sum

theorem createOutputs_eq_ok {vout : Nat} {outputs : List TxOutput}
    {state after : Applying} {result : Unit}
    (ran : createOutputs network context tx vout outputs state = .ok result after) :
    Creates network context tx vout outputs state after := by
  induction outputs generalizing vout state with
  | nil =>
      obtain ⟨-, rfl⟩ := pure_eq_ok.mp ran
      exact ⟨rfl, rfl, by simp [createdBy]⟩
  | cons output outputs ih =>
      rw [createOutputs, bind_eq_ok] at ran
      obtain ⟨_, middle, first, rest⟩ := ran
      have later := ih rest
      rcases createOutput_eq_ok first with ⟨ineligible, rfl⟩ | ⟨eligible, rfl⟩
      · have createdEq : createdBy network context tx vout (output :: outputs) =
            createdBy network context tx (vout + 1) outputs := by
          simp [createdBy, ineligible]
        exact ⟨createdEq ▸ later.utxoSet, later.frame, createdEq ▸ later.stakedDelta⟩
      · have createdEq : createdBy network context tx vout (output :: outputs) =
            createdUtxo network context tx vout output ::
              createdBy network context tx (vout + 1) outputs := by
          simp [createdBy, eligible]
        constructor
        · rw [createdEq]
          exact later.utxoSet
        · rw [later.frame]
          rfl
        · rw [createdEq, later.stakedDelta, List.map_cons, List.sum_cons, ← add_assoc]
          rfl

/-- Everything a successful transaction establishes, in terms of the state it
was applied to and the state it left. -/
structure Effect (network : Network) (context : BlockContext) (tx : Transaction)
    (state after : Applying) : Prop where
  utxoSet : after.utxoSet =
    insertUtxos (eraseInputs state.utxoSet tx.spendable)
      (createdBy network context tx 0 tx.outputs)
  authorized : ∀ spending ∈ spentBy state.utxoSet 0 tx.spendable,
    authorizeSpend network.crypto context tx spending.index spending.input
      spending.utxo = .ok ()
  found : tx.isLegacyClaim = false →
    (spentBy state.utxoSet 0 tx.spendable).map SpentInput.input = tx.spendable
  named : tx.isLegacyClaim = true → tx.claimAddress = none → context.height = 0
  claims : ∀ address, tx.claims = some address → address ∉ state.claimedAddresses ∧
    validateLegacyClaim network.crypto tx (network.getLegacyBalance address) = .ok ()
  claimedAddresses : ∀ address, address ∈ after.claimedAddresses ↔
    tx.claims = some address ∨ address ∈ state.claimedAddresses
  conserved : checkConservation tx (totalSpent state.utxoSet tx) = .ok ()
  staked : tx.isCoinstake = true →
    ∃ spending ∈ spentBy state.utxoSet 0 tx.spendable, spending.index = 0 ∧
      checkStake network context tx state.params state.totalStaked spending.utxo =
        .ok ()
  stakedDelta : after.journal.stakedDelta = state.journal.stakedDelta -
    ((spentBy state.utxoSet 0 tx.spendable).map
      fun spending => stakedValue state.params spending.utxo).sum +
    ((createdBy network context tx 0 tx.outputs).map (stakedValue state.params)).sum
  supplyDelta : after.journal.supplyDelta = saturatingAdd state.journal.supplyDelta
    (computeSupplyDelta tx (totalSpent state.utxoSet tx) tx.totalOutput)
  params : after.params = state.params
  totalSupply : after.totalSupply = state.totalSupply
  totalStaked : after.totalStaked = state.totalStaked
  blockHash : after.journal.blockHash = state.journal.blockHash
  height : after.journal.height = state.journal.height

theorem onGovernance_eq_ok {step : GovernanceState.Step Unit} {state after : Applying}
    {result : Unit} (ran : onGovernance step state = .ok result after) :
    after = { state with governance := after.governance } := by
  unfold onGovernance at ran
  split at ran <;> cases ran
  rfl

theorem transferLock_eq_ok {stakeInput : Option Utxo} {state after : Applying}
    {result : Unit}
    (ran : transferLock network context tx stakeInput state = .ok result after) :
    after = { state with governance := after.governance } := by
  unfold transferLock at ran
  cases active : context.governanceActive with
  | false =>
      simp only [active] at ran
      obtain ⟨-, rfl⟩ := pure_eq_ok.mp ran
      rfl
  | true =>
      cases stakeInput with
      | none =>
          simp only [active] at ran
          obtain ⟨-, rfl⟩ := pure_eq_ok.mp ran
          rfl
      | some staked =>
          simp only [active] at ran
          exact onGovernance_eq_ok ran

theorem checkCoinstake_eq_ok {params : ConsensusParams} {totalStaked : UInt64}
    {stakeInput : Option Utxo} (isStake : tx.isCoinstake = true)
    (checked : checkCoinstake network context tx params totalStaked stakeInput = .ok ()) :
    ∃ staked, stakeInput = some staked ∧
      checkStake network context tx params totalStaked staked = .ok () := by
  unfold checkCoinstake at checked
  rw [if_pos isStake] at checked
  cases stakeInput with
  | none => cases checked
  | some staked => exact ⟨staked, rfl, checked⟩

theorem applyTransactionJournaled_eq_ok {state after : Applying} {result : Unit}
    (ran : applyTransactionJournaled network context tx state = .ok result after) :
    Effect network context tx state after := by
  rw [applyTransactionJournaled, bind_eq_ok] at ran
  obtain ⟨spent, spentState, spentRan, ran⟩ := ran
  rw [bind_eq_ok] at ran
  obtain ⟨_, claimedState, claimedRan, ran⟩ := ran
  rw [bind_eq_ok] at ran
  obtain ⟨_, createdState, createdRan, ran⟩ := ran
  rw [bind_eq_ok] at ran
  obtain ⟨_, _, conservedRan, ran⟩ := ran
  obtain ⟨conserved, rfl⟩ := ofExcept_eq_ok.mp conservedRan
  rw [bind_eq_ok] at ran
  obtain ⟨current, _, got, ran⟩ := ran
  obtain ⟨rfl, rfl⟩ := get_eq_ok.mp got
  rw [bind_eq_ok] at ran
  obtain ⟨_, _, stakedRan, ran⟩ := ran
  obtain ⟨stakeChecked, rfl⟩ := ofExcept_eq_ok.mp stakedRan
  rw [bind_eq_ok] at ran
  obtain ⟨_, movedState, movedRan, ran⟩ := ran
  rw [modify_eq_ok] at ran
  have spends := spendPhase_eq_ok spentRan
  obtain ⟨named, claims, claimed, claimFrame⟩ := claimPhase_eq_ok claimedRan
  have creates := createOutputs_eq_ok createdRan
  have moved := transferLock_eq_ok movedRan
  have spentTotal : spent.totalInput = totalSpent state.utxoSet tx := spends.totalInput
  have utxos : createdState.utxoSet = insertUtxos (eraseInputs state.utxoSet tx.spendable)
      (createdBy network context tx 0 tx.outputs) := by
    rw [creates.utxoSet, claimFrame, spends.utxoSet]
  have params : createdState.params = state.params := by
    rw [creates.frame, claimFrame, spends.frame]
  have totalStaked : createdState.totalStaked = state.totalStaked := by
    rw [creates.frame, claimFrame, spends.frame]
  rw [← ran, moved]
  refine {
    utxoSet := utxos
    authorized := spends.authorized
    found := spends.found
    named := named
    claims := ?claims
    claimedAddresses := ?claimedAddresses
    conserved := spentTotal ▸ conserved
    staked := ?staked
    stakedDelta := ?stakedDelta
    supplyDelta := ?supplyDelta
    params := params
    totalSupply := ?totalSupply
    totalStaked := totalStaked
    blockHash := ?blockHash
    height := ?height }
  case claims =>
    intro address claim
    have checked := claims address claim
    rwa [spends.frame] at checked
  case claimedAddresses =>
    intro address
    change address ∈ createdState.claimedAddresses ↔ _
    rw [creates.frame]
    rw [spends.frame] at claimed
    exact claimed address
  case staked =>
    intro isStake
    obtain ⟨staked, same, checked⟩ := checkCoinstake_eq_ok isStake stakeChecked
    rcases spends.stakeInput staked same with initial | ⟨spending, member, first, rfl⟩
    · simp [SpentInputs.none] at initial
    · rw [params, totalStaked] at checked
      exact ⟨spending, member, first, checked⟩
  case stakedDelta =>
    change createdState.journal.stakedDelta = _
    have sameParams : claimedState.params = state.params := by
      rw [claimFrame, spends.frame]
    have sameDelta : claimedState.journal.stakedDelta = spentState.journal.stakedDelta := by
      rw [claimFrame]
    rw [creates.stakedDelta, sameParams, sameDelta, spends.stakedDelta]
  case supplyDelta =>
    change saturatingAdd createdState.journal.supplyDelta _ = _
    rw [creates.frame, claimFrame, spends.frame, spentTotal]
  case totalSupply =>
    change createdState.totalSupply = state.totalSupply
    rw [creates.frame, claimFrame, spends.frame]
  case blockHash =>
    change createdState.journal.blockHash = state.journal.blockHash
    rw [creates.frame, claimFrame, spends.frame]
  case height =>
    change createdState.journal.height = state.journal.height
    rw [creates.frame, claimFrame, spends.frame]

theorem governancePhase_eq_ok {state after : Applying} {result : Unit}
    (ran : governancePhase network context tx state = .ok result after) :
    after = { state with governance := after.governance } := by
  unfold governancePhase at ran
  split at ran
  · exact onGovernance_eq_ok ran
  · cases ran
    rfl

theorem applyTransaction_eq_ok {state after : Applying} {result : Unit}
    (ran : applyTransaction network context tx state = .ok result after) :
    Effect network context tx state after := by
  rw [applyTransaction, bind_eq_ok] at ran
  obtain ⟨_, governed, governedRan, ran⟩ := ran
  have effect := applyTransactionJournaled_eq_ok ran
  rw [governancePhase_eq_ok governedRan] at effect
  exact ⟨effect.utxoSet, effect.authorized, effect.found, effect.named, effect.claims,
    effect.claimedAddresses, effect.conserved, effect.staked, effect.stakedDelta,
    effect.supplyDelta, effect.params, effect.totalSupply, effect.totalStaked,
    effect.blockHash, effect.height⟩

theorem applyTransactions_invariant {txs : List Transaction} (holds : Applying → Prop)
    {state after : Applying} {result : Unit}
    (step : ∀ tx ∈ txs, ∀ state after, Effect network context tx state after →
      holds state → holds after)
    (ran : applyTransactions network context txs state = .ok result after)
    (start : holds state) : holds after := by
  induction txs generalizing state with
  | nil =>
      obtain ⟨-, rfl⟩ := pure_eq_ok.mp ran
      exact start
  | cons tx txs ih =>
      rw [applyTransactions, bind_eq_ok] at ran
      obtain ⟨_, middle, first, rest⟩ := ran
      exact ih (fun other member => step other (List.mem_cons_of_mem _ member)) rest
        (step tx List.mem_cons_self state middle (applyTransaction_eq_ok first) start)

end Inversion

end Vtorrent
