import Vtorrent.ChainSteps
import Vtorrent.DeliveredBlocks

/-!
# Runs of deliveries

Blocks arrive in any order, each with the clock and the map order of its call.
The chain is consistent when it is made and after every delivery.
-/

namespace Vtorrent

open Std RootedPaths MainChain Retained

section Step

variable {network : Network} {options : ChainOptions}
  {view : LedgerView network options} {accepted : Block → Prop}
  {chain after : Chain} {main : List Block} {journals : List BlockJournal}
  {block : Block} {call : CallContext} {acceptance : BlockAcceptance}

def Growth (before : List BlockJournal) (main : List Block) (block : Block)
    (after : List BlockJournal) (main' : List Block) : BlockAcceptance → Prop
  | .duplicate => main' = main ∧ after = before
  | .fork _ => main' = main ∧ after = before
  | .mainChain _ _ _ _ => main' = main ++ [block] ∧
      after.length = min (before.length + 1) 100
  | .reorg _ _ depth _ => main'.length = main.length + 1 ∧
      after.length = before.length + 1 ∧ depth ≤ before.length

theorem Growth.length_le {main' : List Block} {before after : List BlockJournal}
    (growth : Growth before main block after main' acceptance) :
    main.length ≤ main'.length := by
  cases acceptance with
  | duplicate => exact (congrArg List.length growth.1).ge
  | fork forkTip => exact (congrArg List.length growth.1).ge
  | mainChain height added removed claimed =>
      rw [growth.1, List.length_append]
      exact Nat.le_add_right _ _
  | reorg oldTip newTip depth report =>
      rw [growth.1]
      exact Nat.le_add_right _ _

theorem length_journals_appended {journal : BlockJournal} {ledger : Ledger} :
    (chain.appended network.crypto block journal ledger).journals.length =
      min (chain.journals.length + 1) chain.maxReorgDepth := by
  change ((chain.journals ++ [journal]).drop
    ((chain.journals ++ [journal]).length - chain.maxReorgDepth)).length = _
  rw [List.length_drop, List.length_append, List.length_singleton]
  omega

/-- What a new block leads to before fork leaves are evicted: a consistent chain
whose index has the block recorded. -/
structure Grown (view : LedgerView network options) (accepted : Block → Prop)
    (chain : Chain) (main : List Block) (block : Block) (acceptance : BlockAcceptance)
    (grown : Chain) (main' : List Block) : Prop where
  recorded : ∃ height,
    grown.index = chain.index.withChild network.crypto block height
  growth : Growth chain.journals main block grown.journals main' acceptance
  consistent : ∃ journals', Consistent view accepted grown main' journals'

theorem Consistent.grown
    (consistent : Consistent view accepted chain main journals)
    (admitted : ∀ block, accepted block → view.admits block)
    (timely : block.header.timestamp.toNat ≤ latestTimestamp call.now → accepted block)
    (accepts : Accepts network call chain block acceptance after) :
    (block.hash network.crypto ∈ chain.blockHeights ∧ acceptance = .duplicate ∧
        after = chain) ∨
      ∃ grown main', after = grown.pruneBodies call.keyOrder ∧
        Grown view accepted chain main block acceptance grown main' := by
  cases accepts with
  | duplicate known => exact .inl ⟨known, rfl, rfl⟩
  | mainChain onTip header vetted ran rooted =>
      right
      obtain ⟨ledger, rfl, extended⟩ :=
        consistent.toCoherent.extended onTip header vetted ran rooted
      have accepts := timely vetted.timely
      have appended := consistent.appended extended vetted.fresh (admitted block accepts)
        accepts
      refine ⟨chain.appended network.crypto block _ ledger, _, rfl,
        ⟨_, consistent.toCoherent.index_appended extended.linked⟩, ⟨rfl, ?_⟩, _, appended⟩
      rw [length_journals_appended, consistent.reorgDepth]
  | fork offTip known header vetted weaker =>
      right
      have stored := consistent.fork header known vetted weaker (timely vetted.timely)
      exact ⟨_, _, rfl, ⟨_, consistent.toCoherent.index_storeBlock known⟩, ⟨rfl, rfl⟩, _,
        stored⟩
  | reorg offTip known header vetted stronger ran =>
      right
      obtain ⟨branch, journals', longer, oneMore, covered, same, switched⟩ :=
        consistent.reorg admitted header known vetted stronger ran (timely vetted.timely)
      exact ⟨_, _, rfl,
        ⟨_, same.trans (consistent.toCoherent.index_storeBlock known)⟩,
        ⟨longer, oneMore, covered⟩, _, switched⟩

theorem Consistent.accepts
    (consistent : Consistent view accepted chain main journals)
    (admitted : ∀ block, accepted block → view.admits block)
    (timely : block.header.timestamp.toNat ≤ latestTimestamp call.now → accepted block)
    (accepts : Accepts network call chain block acceptance after) :
    ∃ main' journals',
      Growth chain.journals main block after.journals main' acceptance ∧
        Consistent view accepted after main' journals' := by
  rcases consistent.grown admitted timely accepts with
    ⟨-, rfl, rfl⟩ | ⟨grown, main', rfl, grew⟩
  · exact ⟨main, journals, ⟨rfl, rfl⟩, consistent⟩
  · obtain ⟨journals', next⟩ := grew.consistent
    refine ⟨main', journals', ?_, next.pruneBodies call.keyOrder⟩
    rw [journals_pruneBodies _ next.unlimited]
    exact grew.growth

end Step

section Creation

variable {network : Network} {options : ChainOptions} {chain : Chain}

def genesisIndex (network : Network) : BlockIndex where
  blocks := (∅ : ExtTreeMap Hash Block).insert network.genesisHash network.genesisBlock
  headers := (∅ : ExtTreeMap Hash BlockHeader).insert network.genesisHash
    network.genesisBlock.header
  cumulativeWork := (∅ : ExtTreeMap Hash Nat).insert network.genesisHash 1
  parentMap := ∅
  blockHeights := (∅ : ExtTreeMap Hash Nat).insert network.genesisHash 0

theorem genesisIndex_tree (network : Network) (allowPow : Bool) :
    BlockTree network allowPow (genesisIndex network) := by
  constructor
  · intro hash
    by_cases same : hash = network.genesisHash
    · simp [same, genesisIndex]
    · simp [genesisIndex, FiniteMap.getElem?_insert_of_ne same]
  · intro hash
    by_cases same : hash = network.genesisHash
    · simp [same, genesisIndex]
    · simp [genesisIndex, FiniteMap.getElem?_insert_of_ne same]
  · intro hash
    by_cases same : hash = network.genesisHash
    · simp [same, genesisIndex]
    · simp [genesisIndex, FiniteMap.getElem?_insert_of_ne same]
  · intro hash parent linked
    simp [genesisIndex] at linked
  · simp [genesisIndex]
  · simp [genesisIndex]
  · simp [genesisIndex]
  · intro hash block held notGenesis
    simp [genesisIndex, FiniteMap.getElem?_insert_of_ne notGenesis] at held

theorem applyBlockJournaled_of_ok {block : Block} {height : Nat} {modifier : UInt64}
    {journal : BlockJournal} {ledger : Ledger}
    (parent : chain.parentModifier block height = .ok modifier)
    (applied : applyBlockJournaled network (chain.contextFor network block height modifier)
      block.transactions chain.toLedger = .ok journal ledger) :
    Chain.applyBlockJournaled network block height chain =
      .ok journal { chain with toLedger := ledger } := by
  simp only [Chain.applyBlockJournaled, parent, applied]

theorem applyBlockJournaled_of_error {block : Block} {height : Nat} {modifier : UInt64}
    {error : NodeError} {ledger : Ledger}
    (parent : chain.parentModifier block height = .ok modifier)
    (applied : applyBlockJournaled network (chain.contextFor network block height modifier)
      block.transactions chain.toLedger = .error error ledger) :
    Chain.applyBlockJournaled network block height chain =
      .error error { chain with toLedger := ledger } := by
  simp only [Chain.applyBlockJournaled, parent, applied]

theorem newWith_eq_ok (created : Chain.newWith network options = .ok chain) :
    ∃ journal, applyBlockJournaled network (genesisContext network)
        network.genesisBlock.transactions Ledger.empty = .ok journal chain.toLedger ∧
      chain.index = genesisIndex network ∧ chain.toChainOptions = options ∧
      chain.heightIndex = [network.genesisHash] ∧ chain.journals = [journal] ∧
      chain.txIndex = MainChain.txIndex network.crypto [network.genesisBlock] ∧
      chain.blockBodyCache = unlimitedBodies ∧ chain.maxReorgDepth = 100 := by
  unfold Chain.newWith Chain.new at created
  cases applied : applyBlockJournaled network (genesisContext network)
      network.genesisBlock.transactions Ledger.empty with
  | error error ledger =>
      have ran : Chain.applyBlockJournaled network network.genesisBlock 0
          (Chain.registerGenesis (network.genesisBlock.hash network.crypto)
            network.genesisBlock (.blank options.allowPowTestBlocks)) = .error error _ :=
        applyBlockJournaled_of_error rfl applied
      simp only [ran] at created
      cases created
  | ok journal ledger =>
      have ran : Chain.applyBlockJournaled network network.genesisBlock 0
          (Chain.registerGenesis (network.genesisBlock.hash network.crypto)
            network.genesisBlock (.blank options.allowPowTestBlocks)) = .ok journal _ :=
        applyBlockJournaled_of_ok rfl applied
      simp only [ran] at created
      cases created
      exact ⟨journal, rfl, rfl, rfl, rfl, rfl, rfl, rfl, rfl⟩

theorem newWith_consistent (view : LedgerView network options)
    (start : ∀ {journal ledger}, applyBlockJournaled network (genesisContext network)
      network.genesisBlock.transactions Ledger.empty = .ok journal ledger →
      view.holds [network.genesisBlock] ledger
        (MainChain.txIndex network.crypto [network.genesisBlock]) [journal])
    (accepted : Block → Prop) (created : Chain.newWith network options = .ok chain) :
    ∃ journal, chain.journals = [journal] ∧
      Consistent view accepted chain [network.genesisBlock] [journal] := by
  obtain ⟨journal, applied, index, settings, heightIndex, journals, txIndex, unlimited,
    depth⟩ := newWith_eq_ok created
  have tree := genesisIndex_tree network options.allowPowTestBlocks
  rw [← index] at tree
  refine ⟨journal, journals, ?_⟩
  have onlyGenesis : ∀ {ν : Type} {value : ν} (hash : Hash),
      hash ≠ network.genesisHash →
        ((∅ : ExtTreeMap Hash ν).insert network.genesisHash value)[hash]? = none := by
    intro ν value hash notGenesis
    simp [FiniteMap.getElem?_insert_of_ne notGenesis]
  exact {
    held := txIndex ▸ start applied
    settings := settings
    heightIndex := heightIndex
    journals := by rw [journals]
    stored := by
      intro block member
      rw [List.mem_singleton.mp member]
      exact tree.genesisBody
    path := ⟨network.genesisHash, .root⟩
    tree := tree
    bodies := by
      intro hash block held notGenesis
      rw [show chain.blocks = (genesisIndex network).blocks from
        congrArg BlockIndex.blocks index] at held
      rw [genesisIndex, onlyGenesis hash notGenesis] at held
      cases held
    unlimited := unlimited
    reorgDepth := depth
    best := by
      intro hash height held
      rw [show chain.blockHeights = (genesisIndex network).blockHeights from
        congrArg BlockIndex.blockHeights index] at held
      by_cases genesis : hash = network.genesisHash
      · rw [genesis, (genesisIndex_tree network true).genesisHeight] at held
        cases held
        exact Nat.zero_lt_one
      · rw [genesisIndex, onlyGenesis hash genesis] at held
        cases held }

end Creation

/-- All transactions that a run brings, with those of genesis. -/
def poolOf (network : Network) (deliveries : List Delivery) : List Transaction :=
  network.genesisBlock.transactions ++
    deliveries.flatMap fun delivery => delivery.block.transactions

def Delivered (deliveries : List Delivery) (block : Block) : Prop :=
  ∃ delivery ∈ deliveries, delivery.block = block ∧
    block.header.timestamp.toNat ≤ latestTimestamp delivery.call.now

section Run

variable {network : Network} {options : ChainOptions}
  {view : LedgerView network options} {accepted : Block → Prop}
  {chain : Chain} {main : List Block} {journals : List BlockJournal}
  {deliveries : List Delivery}

theorem Coherent.deliver_cases
    (coherent : Coherent view accepted chain main journals) (delivery : Delivery)
    (admitted : view.admits delivery.block) :
    Unmoved view chain main journals (chain.deliver network delivery) ∨
      ∃ acceptance, Accepts network delivery.call chain delivery.block acceptance
        (chain.deliver network delivery) := by
  cases ran : Chain.addBlock network delivery.call delivery.block chain with
  | error error after =>
      left
      rw [Chain.deliver, final_of_error ran]
      exact coherent.addBlock_error admitted ran
  | ok acceptance after =>
      right
      rw [Chain.deliver, final_of_ok ran]
      exact ⟨acceptance, addBlock_accepts ran⟩

/-- What deliveries must satisfy for a view: every block may be tried, and it counts
as accepted once its timestamp is acceptable. -/
structure Admissions (view : LedgerView network options) (accepted : Block → Prop)
    (delivery : Delivery) : Prop where
  admitted : view.admits delivery.block
  timely : delivery.block.header.timestamp.toNat ≤ latestTimestamp delivery.call.now →
    accepted delivery.block

theorem Consistent.deliver
    (consistent : Consistent view accepted chain main journals)
    (sound : ∀ block, accepted block → view.admits block) {delivery : Delivery}
    (admissions : Admissions view accepted delivery) :
    ∃ main' journals', main.length ≤ main'.length ∧
      Consistent view accepted (chain.deliver network delivery) main' journals' := by
  rcases consistent.toCoherent.deliver_cases delivery admissions.admitted with
    unmoved | ⟨_, accepts⟩
  · exact ⟨main, journals, le_rfl, consistent.unmoved unmoved⟩
  · obtain ⟨main', journals', growth, next⟩ :=
      consistent.accepts sound admissions.timely accepts
    exact ⟨main', journals', growth.length_le, next⟩

theorem Consistent.deliverAll
    (consistent : Consistent view accepted chain main journals)
    (sound : ∀ block, accepted block → view.admits block)
    (admissions : ∀ delivery ∈ deliveries, Admissions view accepted delivery) :
    ∃ main' journals', main.length ≤ main'.length ∧
      Consistent view accepted (chain.deliverAll network deliveries) main' journals' := by
  induction deliveries generalizing chain main journals with
  | nil => exact ⟨main, journals, le_rfl, consistent⟩
  | cons delivery deliveries ih =>
      obtain ⟨middle, middleJournals, grown, next⟩ :=
        consistent.deliver sound (admissions delivery List.mem_cons_self)
      obtain ⟨last, lastJournals, grownAgain, rest⟩ := ih next
        (fun other member => admissions other (List.mem_cons_of_mem _ member))
      exact ⟨last, lastJournals, grown.trans grownAgain, rest⟩

theorem reachable_journals {fresh : Chain}
    (created : Chain.newWith network options = .ok fresh) (deliveries : List Delivery) :
    ∃ main journals, Consistent (journalView network options) (fun _ => True)
      (fresh.deliverAll network deliveries) main journals := by
  obtain ⟨journal, -, start⟩ := newWith_consistent (journalView network options)
    (fun applied => by
      obtain ⟨hashed, height⟩ := applyBlockJournaled_identity applied
      simp [journalView, BlockJournal.identity, hashed, height, genesisContext])
    (fun _ => True) created
  have admissions : ∀ delivery ∈ deliveries,
      Admissions (journalView network options) (fun _ => True) delivery :=
    fun _ _ => ⟨trivial, fun _ => trivial⟩
  obtain ⟨main, journals, -, reached⟩ := start.deliverAll (fun _ _ => trivial) admissions
  exact ⟨main, journals, reached⟩

theorem Delivered.pooled {block : Block} (delivered : Delivered deliveries block) :
    ∀ tx ∈ block.transactions, tx ∈ poolOf network deliveries := by
  intro tx member
  obtain ⟨delivery, inRun, rfl, -⟩ := delivered
  exact List.mem_append_right _ (List.mem_flatMap.mpr ⟨delivery, inRun, member⟩)

theorem newWith_replayed {fresh : Chain} {pool : List Transaction}
    (distinct : DistinctTxids network.crypto pool)
    (genesis : ∀ tx ∈ network.genesisBlock.transactions, tx ∈ pool)
    (accepted : Block → Prop) (created : Chain.newWith network options = .ok fresh) :
    ∃ journal, fresh.journals = [journal] ∧
      Consistent (replayView network options pool distinct) accepted fresh
        [network.genesisBlock] [journal] := by
  refine newWith_consistent _ (fun applied => ?_) accepted created
  exact ⟨.genesis applied, rfl, by simpa [transactions] using genesis⟩

theorem reachable_replayed {fresh : Chain} {pool : List Transaction}
    (distinct : DistinctTxids network.crypto pool)
    (covers : ∀ tx ∈ poolOf network deliveries, tx ∈ pool)
    (created : Chain.newWith network options = .ok fresh) :
    ∃ main journals, Consistent (replayView network options pool distinct)
      (Delivered deliveries) (fresh.deliverAll network deliveries) main journals := by
  obtain ⟨journal, -, start⟩ := newWith_replayed distinct
    (fun tx member => covers tx (List.mem_append_left _ member)) (Delivered deliveries)
    created
  obtain ⟨main, journals, -, reached⟩ := start.deliverAll
    (fun block delivered tx member => covers tx (delivered.pooled tx member))
    (fun delivery inRun => {
      admitted := fun tx member => covers tx (List.mem_append_right _
        (List.mem_flatMap.mpr ⟨delivery, inRun, member⟩))
      timely := fun timely => ⟨delivery, inRun, rfl, timely⟩ })
  exact ⟨main, journals, reached⟩

end Run

namespace Regtest

theorem rivals_distinct :
    DistinctTxids network.crypto (poolOf network (deliveries rivals)) := by
  decide +kernel

end Regtest

end Vtorrent
