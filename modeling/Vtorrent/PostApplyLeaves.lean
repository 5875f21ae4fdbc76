import Vtorrent.ReplayedState
import Vtorrent.StakedBlocks

/-!
# The commitment a staker computes

A staker collects the outputs that its block removes and adds, and merges them into the
leaves of the unspent outputs.  The leaves are those of the set that applying the block
leaves behind, as long as the block does not create an output over one that is unspent
and its coinbases name nothing that could be spent.
-/

namespace Vtorrent

open Std Retained

namespace PostApply

def lookup (before : UtxoSet) (changes : PostApply) (key : OutPoint) : Option Utxo :=
  (changes.added[key]?).or
    (if changes.removed.contains key then none else before[key]?)

/-- The changes lead from one set of unspent outputs to another, and add only outputs of
the listed transactions. -/
structure Leads (crypto : Crypto) (txs : List Transaction) (before : UtxoSet)
    (changes : PostApply) (after : UtxoSet) : Prop where
  reads : ∀ key : OutPoint, after[key]? = changes.lookup before key
  made : ∀ key ∈ changes.added, ∃ tx ∈ txs, key.txid = tx.txid crypto

section Leads

variable {crypto : Crypto} {txs : List Transaction} {before utxos : UtxoSet}
  {changes : PostApply}

theorem Leads.unchanged : Leads crypto txs before .unchanged before :=
  ⟨fun key => by simp [lookup, PostApply.unchanged], by simp [PostApply.unchanged]⟩

theorem Leads.spend (leads : Leads crypto txs before changes utxos)
    (fresh : ∀ tx ∈ txs, ∀ key ∈ before, key.txid ≠ tx.txid crypto) (input : TxInput) :
    Leads crypto txs before (changes.spend input) (utxos.erase input.outPoint) := by
  unfold PostApply.spend
  split
  · rename_i added
    constructor
    · intro key
      rw [ExtTreeMap.getElem?_erase, leads.reads]
      by_cases same : input.outPoint = key
      · obtain ⟨tx, member, created⟩ := leads.made input.outPoint
          (ExtTreeMap.mem_iff_contains.mpr added)
        have absent : before[key]? = none := ExtTreeMap.getElem?_eq_none
          fun held => fresh tx member key held (same ▸ created)
        simp [lookup, same, absent]
      · simp [lookup, ExtTreeMap.getElem?_erase, same]
    · intro key held
      exact leads.made key (ExtTreeMap.mem_of_mem_erase held)
  · rename_i notAdded
    constructor
    · intro key
      rw [ExtTreeMap.getElem?_erase, leads.reads]
      by_cases same : input.outPoint = key
      · have absent : changes.added[key]? = none := ExtTreeMap.getElem?_eq_none
          fun held => notAdded (same ▸ ExtTreeMap.mem_iff_contains.mp held)
        simp [lookup, ExtTreeSet.contains_insert, same, absent]
      · simp [lookup, ExtTreeSet.contains_insert, same]
    · exact leads.made

theorem Leads.spends (leads : Leads crypto txs before changes utxos)
    (fresh : ∀ tx ∈ txs, ∀ key ∈ before, key.txid ≠ tx.txid crypto)
    (inputs : List TxInput) :
    Leads crypto txs before (inputs.foldl PostApply.spend changes)
      (eraseInputs utxos inputs) := by
  induction inputs generalizing changes utxos with
  | nil => exact leads
  | cons input inputs ih => exact ih (leads.spend fresh input)

theorem eraseInputs_of_absent {inputs : List TxInput}
    (absent : ∀ input ∈ inputs, input.outPoint ∉ utxos) :
    eraseInputs utxos inputs = utxos := by
  apply ExtTreeMap.ext_getElem?
  intro key
  rw [getElem?_eraseInputs]
  split
  · rename_i named
    obtain ⟨input, member, rfl⟩ := List.mem_map.mp named
    exact (ExtTreeMap.getElem?_eq_none (absent input member)).symm
  · rfl

/-- Every unspent output was there before or is made by a listed transaction. -/
theorem Leads.origin (leads : Leads crypto txs before changes utxos) {key : OutPoint}
    (held : key ∈ utxos) : key ∈ before ∨ ∃ tx ∈ txs, key.txid = tx.txid crypto := by
  by_cases added : key ∈ changes.added
  · exact .inr (leads.made key added)
  · have reads := leads.reads key
    rw [ExtTreeMap.mem_iff_isSome_getElem?] at held
    rw [lookup, ExtTreeMap.getElem?_eq_none added, Option.none_or] at reads
    split at reads
    · simp [reads] at held
    · exact .inl (by rwa [ExtTreeMap.mem_iff_isSome_getElem?, ← reads])

end Leads

section Transactions

variable {network : Network} {context : BlockContext} {tx : Transaction}
  {txs : List Transaction} {before utxos : UtxoSet} {changes : PostApply}

theorem Leads.addOutputs (leads : Leads network.crypto txs before changes utxos)
    (member : tx ∈ txs) (vout : Nat) (outputs : List TxOutput) :
    Leads network.crypto txs before
      (changes.addOutputs network.crypto context.height context.timestamp tx vout outputs)
      (insertUtxos utxos (createdBy network context tx vout outputs)) := by
  induction outputs generalizing vout changes utxos with
  | nil => exact leads
  | cons output outputs ih =>
      unfold PostApply.addOutputs createdBy
      split
      · refine ih ⟨fun key => ?_, fun key held => ?_⟩ (vout + 1)
        · change (utxos.insert ⟨tx.txid network.crypto, vout⟩ _)[key]? = _
          rw [ExtTreeMap.getElem?_insert, leads.reads, lookup, lookup,
            ExtTreeMap.getElem?_insert]
          by_cases same : (⟨tx.txid network.crypto, vout⟩ : OutPoint) = key
          · simp [same, createdUtxo]
          · simp [same]
        · rw [ExtTreeMap.mem_insert, LawfulEqOrd.compare_eq_iff_eq] at held
          rcases held with rfl | old
          · exact ⟨tx, member, rfl⟩
          · exact leads.made key old
      · exact ih leads (vout + 1)

/-- What a list of transactions must not do for the staker's view to be right: create an
output over an unspent one, or name something unspent in a coinbase. -/
structure Unentangled (crypto : Crypto) (before : UtxoSet) (txs : List Transaction) :
    Prop where
  fresh : ∀ tx ∈ txs, ∀ key ∈ before, key.txid ≠ tx.txid crypto
  coinbases : ∀ tx ∈ txs, tx.isCoinbase = true → ∀ input ∈ tx.inputs,
    input.outPoint ∉ before ∧ ∀ other ∈ txs, other.txid crypto ≠ input.prevTxid

theorem Leads.transact {state after : Applying}
    (leads : Leads network.crypto txs before changes state.utxoSet)
    (unentangled : Unentangled network.crypto before txs) (member : tx ∈ txs)
    (effect : Effect network context tx state after) :
    Leads network.crypto txs before
      (changes.transact network.crypto context.height context.timestamp tx)
      after.utxoSet := by
  have erased : eraseInputs state.utxoSet tx.spendable =
      eraseInputs state.utxoSet tx.inputs := by
    unfold Transaction.spendable
    split
    · rename_i coinbase
      symm
      apply eraseInputs_of_absent
      intro input named held
      obtain ⟨absent, foreign⟩ := unentangled.coinbases tx member coinbase input named
      rcases leads.origin held with old | ⟨other, inList, made⟩
      · exact absent old
      · exact foreign other inList made.symm
    · rfl
  rw [effect.utxoSet, erased]
  exact (leads.spends unentangled.fresh tx.inputs).addOutputs member 0 tx.outputs

theorem Leads.applyTransactions {remaining : List Transaction} {state after : Applying}
    {result : Unit} (leads : Leads network.crypto txs before changes state.utxoSet)
    (unentangled : Unentangled network.crypto before txs)
    (subset : ∀ tx ∈ remaining, tx ∈ txs)
    (ran : applyTransactions network context remaining state = .ok result after) :
    Leads network.crypto txs before
      (remaining.foldl (PostApply.transact network.crypto context.height
        context.timestamp) changes) after.utxoSet := by
  induction remaining generalizing changes state with
  | nil =>
      obtain ⟨-, rfl⟩ := pure_eq_ok.mp ran
      exact leads
  | cons tx remaining ih =>
      rw [Vtorrent.applyTransactions, bind_eq_ok] at ran
      obtain ⟨_, middle, first, rest⟩ := ran
      exact ih (leads.transact unentangled (subset tx List.mem_cons_self)
        (applyTransaction_eq_ok first))
        (fun other member => subset other (List.mem_cons_of_mem _ member)) rest

end Transactions

end PostApply

open PostApply

section Producer

variable {network : Network} {context : BlockContext} {txs : List Transaction}
  {before after : Ledger} {journal : BlockJournal}

theorem zip_keys_utxoLeaves (crypto : Crypto) (utxos : UtxoSet) :
    utxos.keys.zip (utxoLeaves crypto utxos) =
      utxos.toList.map (Prod.map id (hashUtxo crypto)) := by
  rw [← ExtTreeMap.map_fst_toList_eq_keys, utxoLeaves, FiniteMap.values, List.map_map,
    List.zip_map']
  rfl

theorem buildPostApplyLeaves_of_applied
    (ran : applyBlockJournaled network context txs before = .ok journal after)
    (unentangled : Unentangled network.crypto before.utxoSet txs) :
    buildPostApplyLeaves network.crypto before.utxoSet
      (utxoLeaves network.crypto before.utxoSet) txs context.height context.timestamp =
        utxoLeaves network.crypto after.utxoSet := by
  obtain ⟨begun, done, began, applied, -, rfl, -⟩ := applyBlockJournaled_eq_ok ran
  have start : begun.utxoSet = before.utxoSet := by
    rw [beginGovernanceBlock_eq_ok began]
    rfl
  have leads : Leads network.crypto txs before.utxoSet .unchanged begun.utxoSet := by
    rw [start]
    exact .unchanged
  have finished := leads.applyTransactions unentangled (fun _ member => member) applied
  unfold buildPostApplyLeaves
  simp only []
  rw [zip_keys_utxoLeaves, OverlayMerge.merge_map,
    OverlayMerge.merge_toList _ finished.reads, utxoLeaves, FiniteMap.values,
    List.map_map, List.map_map]
  rfl

/-- The staker commits to the unspent outputs that applying its block leaves. -/
theorem staker_commits_to_applied
    (ran : applyBlockJournaled network context txs before = .ok journal after)
    (unentangled : Unentangled network.crypto before.utxoSet txs) :
    buildPostApplyLeaves network.crypto before.utxoSet
        (utxoLeaves network.crypto before.utxoSet) txs context.height context.timestamp =
          (FiniteMap.values after.utxoSet).map (hashUtxo network.crypto) ∧
      journal.utxoRoot = recomputeUtxoRoot network.crypto after.utxoSet ∧
      ∀ (prevHash : Hash) (prevStakeModifier : UInt64) (pending : List Transaction)
        (kernel : Utxo × Transaction) (block : Block),
        buildFromKernelWithProof network.crypto prevHash prevStakeModifier context.height
          context.timestamp before.utxoSet pending kernel = some block →
        block.transactions = txs → block.header.utxoRoot = journal.utxoRoot := by
  have leaves := buildPostApplyLeaves_of_applied ran unentangled
  have root : journal.utxoRoot = recomputeUtxoRoot network.crypto after.utxoSet := by
    obtain ⟨begun, done, -, -, -, rfl, rfl⟩ := applyBlockJournaled_eq_ok ran
    rfl
  refine ⟨leaves, root, ?_⟩
  intro prevHash prevStakeModifier pending kernel block built body
  unfold buildFromKernelWithProof at built
  simp only [Option.ite_none_right_eq_some, Option.some.injEq] at built
  obtain ⟨-, rfl⟩ := built
  rw [root, recomputeUtxoRoot, ← utxoLeaves, ← leaves, ← body]

end Producer

namespace Regtest

def gift : Transaction := { coinbase 1 with outputs := [⟨1000, [0x51]⟩] }

def giving : Block :=
  let mined := mine network.genesisBlock.header 1 1 []
  { header := { mined.header with
      merkleRoot := computeMerkleRootFromTxids crypto [gift.txid crypto] }
    transactions := [gift] }

def taking : Transaction :=
  { unfunded with
    inputs := [⟨gift.txid crypto, 0, [], 0⟩]
    outputs := [⟨900, [0x51]⟩] }

def given : Chain := fresh.deliverAll network (deliveries [giving])

def splitting : Transaction :=
  { unfunded with
    inputs := [⟨taking.txid crypto, 0, [], 0⟩]
    outputs := [⟨400, [0x51]⟩, ⟨1, [0x6a]⟩, ⟨300, [0x51]⟩] }

def naming : Transaction :=
  { coinbase 2 with inputs := [⟨gift.txid crypto, 0, [], 0⟩] }

def nextContext : BlockContext where
  blockHash := zeroHash
  height := 2
  timestamp := giving.header.timestamp + 1
  parentStakeModifier := 0
  governanceActive := given.governanceActive 2
  genesisHash := given.heightIndex.headD zeroHash
  bootstrapped := given.isBootstrapped

def appliesWith (txs : List Transaction) (test : Ledger → Bool) : Bool :=
  match applyBlockJournaled network nextContext txs given.toLedger with
  | .ok _ after => test after
  | .error _ _ => false

theorem exists_of_appliesWith {txs : List Transaction} {test : Ledger → Bool}
    (passes : appliesWith txs test = true) :
    ∃ journal after, applyBlockJournaled network nextContext txs given.toLedger =
      .ok journal after ∧ test after = true := by
  unfold appliesWith at passes
  split at passes
  · rename_i ran
    exact ⟨_, _, ran, passes⟩
  · cases passes

/-- The blocks apply; the first one's leaves are apart from the unspent outputs, and the
other two end with leaves the staker does not compute. -/
theorem blocks_apply :
    appliesWith [coinbase 2, taking, splitting]
        (fun after => (FiniteMap.values after.utxoSet).length == 4) = true ∧
      (∀ tx ∈ [coinbase 2, taking, splitting],
        ∀ key ∈ given.utxoSet.keys, key.txid ≠ tx.txid network.crypto) ∧
      (∀ tx ∈ [coinbase 2, taking, splitting], tx.isCoinbase = true → ∀ input ∈ tx.inputs,
        input.outPoint ∉ given.utxoSet ∧
          ∀ other ∈ [coinbase 2, taking, splitting],
            other.txid network.crypto ≠ input.prevTxid) ∧
      ∀ txs ∈ [[naming], [gift, taking]],
        appliesWith txs (fun after => buildPostApplyLeaves crypto given.utxoSet
          (utxoLeaves crypto given.utxoSet) txs 2 (giving.header.timestamp + 1) !=
            (FiniteMap.values after.utxoSet).map (hashUtxo crypto)) = true := by
  decide +kernel

end Regtest

/-- A block whose third transaction spends what the second makes. -/
theorem staker_commits_to_splitting :
    ∃ journal after, applyBlockJournaled Regtest.network Regtest.nextContext
        [Regtest.coinbase 2, Regtest.taking, Regtest.splitting] Regtest.given.toLedger =
          .ok journal after ∧
      (FiniteMap.values after.utxoSet).length = 4 ∧
      buildPostApplyLeaves Regtest.network.crypto Regtest.given.utxoSet
        (utxoLeaves Regtest.network.crypto Regtest.given.utxoSet)
        [Regtest.coinbase 2, Regtest.taking, Regtest.splitting] 2
        (Regtest.giving.header.timestamp + 1) =
          (FiniteMap.values after.utxoSet).map (hashUtxo Regtest.network.crypto) := by
  obtain ⟨passes, apart, coinbases, -⟩ := Regtest.blocks_apply
  obtain ⟨journal, after, ran, held⟩ := Regtest.exists_of_appliesWith passes
  have unentangled : Unentangled Regtest.network.crypto Regtest.given.utxoSet
      [Regtest.coinbase 2, Regtest.taking, Regtest.splitting] :=
    ⟨fun tx member key held => apart tx member key (ExtTreeMap.mem_keys.mpr held),
      coinbases⟩
  exact ⟨journal, after, ran, by simpa using held,
    (staker_commits_to_applied ran unentangled).1⟩

/-- The staker spends what a coinbase names, and keeps an unspent output that the block
creates again and then spends. -/
theorem staker_leaves_differ :
    let leaves := fun txs => buildPostApplyLeaves Regtest.crypto Regtest.given.utxoSet
      (utxoLeaves Regtest.crypto Regtest.given.utxoSet) txs 2
      (Regtest.giving.header.timestamp + 1)
    ∀ txs ∈ [[Regtest.naming], [Regtest.gift, Regtest.taking]],
      ∃ journal after, applyBlockJournaled Regtest.network Regtest.nextContext txs
          Regtest.given.toLedger = .ok journal after ∧
        leaves txs ≠ (FiniteMap.values after.utxoSet).map (hashUtxo Regtest.crypto) := by
  intro leaves txs member
  obtain ⟨-, -, -, passes⟩ := Regtest.blocks_apply
  obtain ⟨journal, after, ran, differ⟩ := Regtest.exists_of_appliesWith (passes txs member)
  exact ⟨journal, after, ran, by simpa using differ⟩

end Vtorrent
