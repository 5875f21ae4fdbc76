import Vtorrent.BodyCommitment
import Vtorrent.ScriptPrograms
import Vtorrent.StakedSupply

/-!
# Delegated coins

A cold-stake script lets a hot key stake coins that only a cold key may move.  Plain
delegated outputs keep their value through every validated block, and through every run of
blocks that extends the main chain, unless the cold key signs for one of them.  A delegated
output behind a script hash is only as safe as the check that looks for its redeem script: the
check reads the last push of the input's script, while the engine runs what that script leaves
on top of the stack.
-/

namespace Vtorrent

open Std FiniteMap Checked Script Engine MainChain

section Forms

theorem scriptTypeOf_eq_some {bytes : Bytes} {form : ScriptType}
    (typed : scriptTypeOf bytes = some form) :
    Script.fromBytes bytes = .ok ⟨bytes⟩ ∧ classifyScript ⟨bytes⟩ = form := by
  unfold scriptTypeOf Script.fromBytes at typed
  split at typed
  · rename_i script read
    split at read
    · cases read
    · rename_i small
      cases read
      refine ⟨?_, Option.some.inj typed⟩
      rw [Script.fromBytes, if_neg small]
  · cases typed

/-- `OP_HASH160 <hash> OP_EQUAL`. -/
def p2shItems (scriptHash : Bytes) : List Item :=
  [.opcode 0xa9, .pushData scriptHash, .opcode 0x87]

def scriptHashOf (bytes : Bytes) : Bytes := (bytes.drop 2).take 20

theorem isP2sh_of_classify {script : Script} (form : classifyScript script = .p2sh) :
    isP2sh script = true := by
  unfold classifyScript at form
  simp only at form
  split at form
  · cases form
  · split at form
    · rename_i shape
      simpa [isP2sh] using shape
    · split at form
      · cases form
      · split at form
        · cases form
        · split at form
          · cases form
          · split at form
            · cases form
            · split at form <;> cases form

theorem eq_assemble_of_isP2sh {bytes : Bytes} (hashed : isP2sh ⟨bytes⟩ = true) :
    Script.mk bytes = assemble (p2shItems (scriptHashOf bytes)) ∧
      (scriptHashOf bytes).length = 20 := by
  obtain ⟨sized, opened, length, closed⟩ := of_decide_eq_true hashed
  match bytes with
  | first :: second :: rest =>
      simp only [List.length_cons] at sized
      obtain rfl : first = 0xa9 := by simpa [byteAt] using opened
      obtain rfl : second = 0x14 := by simpa [byteAt] using length
      have last : rest.drop 20 = [0x87] := by
        have found : rest[20]? = some 0x87 := by simpa [byteAt] using closed
        rw [List.drop_eq_getElem?_toList_append, found]
        simp
        omega
      have hashLength : (rest.take 20).length = 20 := by
        rw [List.length_take]
        omega
      refine ⟨?_, hashLength⟩
      have split : rest = rest.take 20 ++ [0x87] := by
        rw [← last, List.take_append_drop]
      simp only [assemble, p2shItems, scriptHashOf, List.flatMap_cons, List.flatMap_nil,
        Item.encode, List.drop_succ_cons, List.drop_zero, hashLength]
      congr 1
      conv_lhs => rw [split]
      rfl
  | [] | [_] => simp at sized

end Forms

section Authorization

variable {crypto : Crypto} {context : BlockContext} {tx : Transaction}

/-- The pushes of an input's script hold a signature by the key with the given hash, and
the transaction declares a lock that has reached the locktime. -/
def ColdSigned (crypto : Crypto) (tx : Transaction) (index : Nat)
    (scriptPubkey scriptSig spendingHash : Bytes) (locktime : UInt32) : Prop :=
  locktime ≤ tx.lockTime ∧
    ∃ sig ∈ (Script.mk scriptSig).pushes, ∃ pubkey ∈ (Script.mk scriptSig).pushes,
      (crypto.hash160 pubkey).toList = spendingHash ∧
      crypto.signatureValid (tx.sighash crypto index scriptPubkey) sig pubkey = true

instance (index : Nat) (scriptPubkey scriptSig spendingHash : Bytes) (locktime : UInt32) :
    Decidable (ColdSigned crypto tx index scriptPubkey scriptSig spendingHash locktime) := by
  unfold ColdSigned
  infer_instance

theorem fromBytes_eq_ok {bytes : Bytes} {script : Script}
    (read : Script.fromBytes bytes = .ok script) : script = ⟨bytes⟩ := by
  unfold Script.fromBytes at read
  split at read
  · cases read
  · exact (Except.ok.inj read).symm

theorem mem_pushes_of_signatureStack {utxoScript : Bytes} {scriptSig : Script}
    {push : Bytes} (member : push ∈ p2csSignatureStack utxoScript scriptSig) :
    push ∈ scriptSig.pushes := by
  unfold p2csSignatureStack at member
  split at member
  · exact List.mem_of_mem_dropLast member
  · exact member

/-- The check of a cold spend finds a signature by the spending key of the script it
looked at. -/
theorem coldSigned_of_authorized {index : Nat} {scriptSig p2csScript : Bytes}
    {utxo : Utxo} {stakingHash spendingHash : Bytes} {locktime : UInt32}
    (authorized : p2csColdSpendAuthorized crypto tx index scriptSig utxo = true)
    (governs : p2csRedeemScript utxo.scriptPubkey scriptSig = some p2csScript)
    (form : scriptTypeOf p2csScript = some (.p2cs stakingHash spendingHash locktime)) :
    ColdSigned crypto tx index utxo.scriptPubkey scriptSig spendingHash locktime := by
  unfold p2csColdSpendAuthorized at authorized
  cases read : Script.fromBytes scriptSig with
  | error error => simp [governs, form, read] at authorized
  | ok sigScript =>
      obtain rfl := fromBytes_eq_ok read
      simp only [governs, form, read] at authorized
      split at authorized
      · cases authorized
      · rename_i reached
        split at authorized
        · rename_i selector pubkey sig below shape
          rw [Bool.and_eq_true, beq_iff_eq] at authorized
          have supplied : ∀ push ∈ selector :: pubkey :: sig :: below,
              push ∈ (Script.mk scriptSig).pushes := by
            intro push member
            rw [← shape, List.mem_reverse] at member
            exact mem_pushes_of_signatureStack member
          exact ⟨UInt32.not_lt.mp reached, sig, supplied sig (by simp), pubkey,
            supplied pubkey (by simp), authorized⟩
        · cases authorized

theorem authorizeSpend_eq_ok {index : Nat} {input : TxInput} {utxo : Utxo}
    (checked : authorizeSpend crypto context tx index input utxo = .ok ())
    (notClaim : tx.isLegacyClaim = false) :
    Script.fromBytes input.scriptSig = .ok ⟨input.scriptSig⟩ ∧
      Engine.execute crypto (scriptEnvOf crypto context tx index input utxo)
        ⟨input.scriptSig⟩ ⟨utxo.scriptPubkey⟩ = .ok () ∧
      (tx.isCoinstake = false →
        (p2csRedeemScript utxo.scriptPubkey input.scriptSig).isSome = true →
        p2csColdSpendAuthorized crypto tx index input.scriptSig utxo = true) := by
  simp only [authorizeSpend, notClaim, Bool.false_eq_true, if_false, verifyScripts,
    bind_eq_ok, rejectIf_eq_ok, mapError_eq_ok] at checked
  obtain ⟨_, ⟨_, sigRead, _, pubkeyRead, executed⟩, cold⟩ := checked
  obtain rfl := fromBytes_eq_ok sigRead
  obtain rfl := fromBytes_eq_ok pubkeyRead
  refine ⟨sigRead, executed, ?_⟩
  intro notStake governed
  simpa [notStake, governed] using cold

/-- The redeem script the engine ran for an input: what the input's script left on top of
the stack.  The scripts of claims are not run. -/
def executedRedeem (crypto : Crypto) (context : BlockContext) (tx : Transaction)
    (spending : SpentInput) : Option Bytes :=
  if tx.isLegacyClaim then none
  else
    match runSig crypto (scriptEnvOf crypto context tx spending.index spending.input
        spending.utxo) ⟨spending.input.scriptSig⟩ with
    | .ok afterSig => afterSig.stack.head?
    | .error _ => none

theorem hash160_of_execute {env : ScriptEnv} {scriptSig : Script} {bytes : Bytes}
    {afterSig : Stacks} {redeem : Bytes} (hashed : isP2sh ⟨bytes⟩ = true)
    (executed : execute crypto env scriptSig ⟨bytes⟩ = .ok ())
    (ranSig : runSig crypto env scriptSig = .ok afterSig)
    (top : afterSig.stack.head? = some redeem) :
    (crypto.hash160 redeem).toList = scriptHashOf bytes := by
  obtain ⟨assembled, sized⟩ := eq_assemble_of_isP2sh hashed
  obtain ⟨_, final, sameSig, ran, ⟨verdict, rest, held, truthy⟩, -⟩ :=
    (execute_p2sh_eq_ok hashed).mp executed
  cases ranSig.symm.trans sameSig
  have encodable : ∀ item ∈ p2shItems (scriptHashOf bytes), item.Encodable := by
    simp [p2shItems, Item.Encodable, sized]
  have onStack : ∀ item ∈ p2shItems (scriptHashOf bytes), OnStack item := by
    simp [p2shItems, OnStack]
  rw [assembled, run_onStack encodable onStack (by simp [p2shItems, maxScriptExecSteps])]
    at ran
  obtain ⟨after, ran, rfl⟩ := ran
  simp only [p2shItems, stackItems, bind_eq_ok, stackItem_hash160, stackItem_push,
    stackItem_equal] at ran
  obtain ⟨_, ⟨revealed, below, shape, rfl⟩, _, ⟨-, rfl⟩, _, ⟨_, _, _, compared, rfl⟩, same⟩ :=
    ran
  cases compared
  cases same
  cases held
  rw [shape] at top
  cases top
  rw [isTrue_boolToBytes] at truthy
  simpa using truthy

end Authorization

section Plain

variable {network : Network} {context : BlockContext} {tx : Transaction}
  {state after : Applying} {script stakingHash spendingHash : Bytes} {locktime : UInt32}

def lockedBy (script : Bytes) (utxo : Utxo) : Nat :=
  if utxo.scriptPubkey = script then utxo.value.toNat else 0

/-- The value of the unspent outputs locked by a script. -/
def lockedValue (script : Bytes) (utxos : UtxoSet) : Nat := total (lockedBy script) utxos

theorem lockedBy_of_ne {utxo : Utxo} (other : utxo.scriptPubkey ≠ script) :
    lockedBy script utxo = 0 :=
  if_neg other

/-- A transaction spends an output of the script under a signature by the cold key. -/
def ColdSpends (crypto : Crypto) (tx : Transaction) (script spendingHash : Bytes)
    (locktime : UInt32) (held : OutPoint → Prop) : Prop :=
  tx.isCoinstake = false ∧ ∃ index input, tx.inputs[index]? = some input ∧
    held input.outPoint ∧
    ColdSigned crypto tx index script input.scriptSig spendingHash locktime

theorem spentBy_index {utxos : UtxoSet} {index : Nat} {inputs : List TxInput}
    {spending : SpentInput} (member : spending ∈ spentBy utxos index inputs) :
    ∃ i, spending.index = index + i ∧ inputs[i]? = some spending.input := by
  induction inputs generalizing utxos index with
  | nil => simp [spentBy] at member
  | cons input inputs ih =>
      have later {utxos : UtxoSet} (rest : spending ∈ spentBy utxos (index + 1) inputs) :
          ∃ i, spending.index = index + i ∧ (input :: inputs)[i]? = some spending.input := by
        obtain ⟨i, same, found⟩ := ih rest
        exact ⟨i + 1, by omega, found⟩
      rw [spentBy] at member
      split at member
      · rcases List.mem_cons.mp member with rfl | rest
        · exact ⟨0, rfl, rfl⟩
        · exact later rest
      · exact later member

theorem spentBy_singleton {utxos : UtxoSet} {input : TxInput} {spending : SpentInput}
    (member : spending ∈ spentBy utxos 0 [input]) :
    spentBy utxos 0 [input] = [spending] := by
  rw [spentBy] at member ⊢
  split at member
  · rw [spentBy, List.mem_singleton] at member
    rw [spentBy, member]
  · simp [spentBy] at member

theorem sum_createdBy_lockedBy (carries : scriptTypeOf script ≠ some .opReturn) (vout : Nat)
    (outputs : List TxOutput) :
    ((createdBy network context tx vout outputs).map (lockedBy script)).sum =
      ((outputs.filter fun output => decide (output.scriptPubkey = script)).map
        fun output => output.value.toNat).sum := by
  induction outputs generalizing vout with
  | nil => rfl
  | cons output outputs ih =>
      have later := ih (vout + 1)
      rw [createdBy]
      by_cases same : output.scriptPubkey = script
      · have eligible : isUtxoEligible output tx context.height = true := by
          simp [isUtxoEligible, same, carries]
        have weight : lockedBy script (createdUtxo network context tx vout output) =
            output.value.toNat := if_pos same
        rw [if_pos eligible, List.map_cons, List.sum_cons, later, weight]
        simp [same]
      · rw [List.filter_cons_of_neg (by simpa using same), ← later]
        split
        · rw [List.map_cons, List.sum_cons, lockedBy_of_ne same, Nat.zero_add]
        · rfl

theorem toNat_relockedValue_le (script : Bytes) (outputs : List TxOutput) :
    (relockedValue script outputs).toNat ≤
      ((outputs.filter fun output => decide (output.scriptPubkey = script)).map
        fun output => output.value.toNat).sum := by
  rw [relockedValue, toNat_saturatingSum, List.map_map]
  refine (Nat.min_le_left _ _).trans ?_
  have sublist : (outputs.filter fun output =>
      decide (output.value > 0 ∧ output.scriptPubkey = script)).Sublist
      (outputs.filter fun output => decide (output.scriptPubkey = script)) := by
    apply List.monotone_filter_right
    intro output chosen
    simpa using (of_decide_eq_true chosen).2
  exact (sublist.map _).sum_le_sum fun _ _ => Nat.zero_le _

theorem checkStake_relocked {params : ConsensusParams} {totalStaked : UInt64}
    {staked : Utxo} (form : scriptTypeOf script =
      some (.p2cs stakingHash spendingHash locktime))
    (own : staked.scriptPubkey = script)
    (checked : checkStake network context tx params totalStaked staked = .ok ()) :
    staked.value.toNat ≤ (relockedValue script tx.outputs).toNat := by
  simp only [checkStake, bind_eq_ok, rejectIf_eq_ok] at checked
  obtain ⟨_, -, _, -, _, -, _, -, _, -, relocks⟩ := checked
  unfold checkRelock at relocks
  have governs : p2csRedeemScript script
      ((tx.inputs.head?.map TxInput.scriptSig).getD []) = some script := by
    rw [p2csRedeemScript, form]
  simp only [own, governs, bind_eq_ok, rejectIf_eq_ok] at relocks
  obtain ⟨_, -, kept⟩ := relocks
  simpa [UInt64.le_iff_toNat_le] using kept

/-- The outputs of a script that a block finds or creates. -/
def HeldInBlock (crypto : Crypto) (utxos : UtxoSet) (txs : List Transaction)
    (script : Bytes) (key : OutPoint) : Prop :=
  (∃ utxo, utxos[key]? = some utxo ∧ utxo.scriptPubkey = script) ∨
    ∃ tx ∈ txs, ∃ output, tx.outputs[key.vout]? = some output ∧
      key.txid = tx.txid crypto ∧ output.scriptPubkey = script

theorem Effect.spent_le_of_coinstake (effect : Effect network context tx state after)
    (wellFormed : WellFormed tx) (stake : tx.txType = .coinstake)
    (form : scriptTypeOf script = some (.p2cs stakingHash spendingHash locktime)) :
    ((spentBy state.utxoSet 0 tx.spendable).map fun spending =>
      lockedBy script spending.utxo).sum ≤ (relockedValue script tx.outputs).toNat := by
  obtain ⟨input, single⟩ := wellFormed.coinstake stake
  obtain ⟨spending, member, -, checked⟩ :=
    effect.staked (by simp [Transaction.isCoinstake, stake])
  have spendable : tx.spendable = [input] := by
    simp [Transaction.spendable, Transaction.isCoinbase, stake, single]
  rw [spendable] at member
  rw [spendable, spentBy_singleton member, List.map_singleton, List.sum_singleton]
  by_cases own : spending.utxo.scriptPubkey = script
  · rw [lockedBy, if_pos own]
    exact checkStake_relocked form own checked
  · rw [lockedBy_of_ne own]
    exact Nat.zero_le _

theorem Effect.coldSpends (effect : Effect network context tx state after)
    (spendable : tx.spendable = tx.inputs) (claim : tx.isLegacyClaim = false)
    (stake : tx.isCoinstake = false)
    (form : scriptTypeOf script = some (.p2cs stakingHash spendingHash locktime))
    {spending : SpentInput} (member : spending ∈ spentBy state.utxoSet 0 tx.spendable)
    (own : spending.utxo.scriptPubkey = script) :
    ColdSpends network.crypto tx script spendingHash locktime fun key =>
      ∃ utxo, state.utxoSet[key]? = some utxo ∧ utxo.scriptPubkey = script := by
  obtain ⟨-, -, cold⟩ := authorizeSpend_eq_ok (effect.authorized spending member) claim
  have governs : p2csRedeemScript spending.utxo.scriptPubkey
      spending.input.scriptSig = some script := by
    rw [own, p2csRedeemScript, form]
  have signed := coldSigned_of_authorized (cold stake (by simp [governs])) governs form
  obtain ⟨i, same, found⟩ := spentBy_index member
  rw [own] at signed
  refine ⟨stake, spending.index, spending.input, ?_,
    ⟨spending.utxo, spentBy_held member, own⟩, signed⟩
  rw [same, Nat.zero_add, ← spendable]
  exact found

/-- One transaction never lowers what a delegation script locks, unless the cold key
signs for an output of the script. -/
theorem Effect.lockedBy_le (effect : Effect network context tx state after)
    (fresh : FreshTxid network.crypto tx state.utxoSet) (wellFormed : WellFormed tx)
    (form : scriptTypeOf script = some (.p2cs stakingHash spendingHash locktime)) :
    lockedValue script state.utxoSet ≤ lockedValue script after.utxoSet ∨
      ColdSpends network.crypto tx script spendingHash locktime fun key =>
        ∃ utxo, state.utxoSet[key]? = some utxo ∧ utxo.scriptPubkey = script := by
  have balance := effect.total fresh (lockedBy script)
  change lockedValue script after.utxoSet + _ = lockedValue script state.utxoSet + _
    at balance
  rw [sum_createdBy_lockedBy (by simp [form])] at balance
  by_cases stake : tx.txType = .coinstake
  · have kept := effect.spent_le_of_coinstake wellFormed stake form
    have relocked := toNat_relockedValue_le script tx.outputs
    omega
  by_cases touched : ∃ spending ∈ spentBy state.utxoSet 0 tx.spendable,
      spending.utxo.scriptPubkey = script
  · right
    obtain ⟨spending, member, own⟩ := touched
    have spends : tx.spendable ≠ [] := by
      intro none
      simp [none, spentBy] at member
    have claim : tx.txType ≠ .legacyClaim := fun claim =>
      spends (by simp [Transaction.spendable, (wellFormed.claim claim).2])
    have coinbase : tx.txType ≠ .coinbase := fun coinbase =>
      spends (by simp [Transaction.spendable, Transaction.isCoinbase, coinbase])
    exact effect.coldSpends
      (by simp [Transaction.spendable, Transaction.isCoinbase, coinbase])
      (by simp [Transaction.isLegacyClaim, claim]) (by simp [Transaction.isCoinstake, stake])
      form member own
  · have untouched : ((spentBy state.utxoSet 0 tx.spendable).map fun spending =>
        lockedBy script spending.utxo).sum = 0 := by
      apply List.sum_eq_zero
      intro weight member
      obtain ⟨spending, spent, rfl⟩ := List.mem_map.mp member
      exact lockedBy_of_ne fun own => touched ⟨spending, spent, own⟩
    omega

/-- What a block keeps track of for a delegation script: every held output was there
before or was created by the block, and nothing was lost without the cold key. -/
structure Delegated (crypto : Crypto) (before : UtxoSet) (txs : List Transaction)
    (script spendingHash : Bytes) (locktime : UInt32) (utxos : UtxoSet) : Prop where
  held : ∀ key utxo, utxos[key]? = some utxo → utxo.scriptPubkey = script →
    HeldInBlock crypto before txs script key
  kept : lockedValue script before ≤ lockedValue script utxos ∨
    ∃ tx ∈ txs, ColdSpends crypto tx script spendingHash locktime
      (HeldInBlock crypto before txs script)

theorem Delegated.effect {before : UtxoSet} {txs : List Transaction}
    (delegated : Delegated network.crypto before txs script spendingHash locktime
      state.utxoSet)
    (member : tx ∈ txs) (effect : Effect network context tx state after)
    (fresh : FreshTxid network.crypto tx state.utxoSet) (wellFormed : WellFormed tx)
    (form : scriptTypeOf script = some (.p2cs stakingHash spendingHash locktime)) :
    Delegated network.crypto before txs script spendingHash locktime after.utxoSet := by
  constructor
  · intro key utxo held own
    rcases effect.held held with ⟨created, rfl⟩ | old
    · obtain ⟨i, output, found, -, rfl⟩ := mem_createdBy created
      refine .inr ⟨tx, member, output, ?_, rfl, own⟩
      rw [← found]
      exact congrArg (tx.outputs[·]?) (Nat.zero_add i)
    · exact delegated.held key utxo old own
  · rcases delegated.kept with kept | spent
    · rcases effect.lockedBy_le fresh wellFormed form with grown | ⟨notStake, index, input,
        found, ⟨utxo, held, own⟩, signed⟩
      · exact .inl (kept.trans grown)
      · exact .inr ⟨tx, member, notStake, index, input, found,
          delegated.held _ utxo held own, signed⟩
    · exact .inr spent

theorem Delegated.applyBlock {before : UtxoSet} {pool applied txs inBlock : List Transaction}
    {ledger next : Ledger} {journal : BlockJournal}
    (delegated : Delegated network.crypto before txs script spendingHash locktime
      ledger.utxoSet)
    (admissible : Admissible network.crypto pool applied ledger inBlock)
    (members : ∀ tx ∈ inBlock, tx ∈ txs) (wellFormed : ∀ tx ∈ inBlock, WellFormed tx)
    (form : scriptTypeOf script = some (.p2cs stakingHash spendingHash locktime))
    (ran : applyBlockJournaled network context inBlock ledger = .ok journal next) :
    Delegated network.crypto before txs script spendingHash locktime next.utxoSet := by
  obtain ⟨begun, done, began, finished, -, rfl, -⟩ := applyBlockJournaled_eq_ok ran
  have same := beginGovernanceBlock_eq_ok began
  have sameUtxos : begun.utxoSet = ledger.utxoSet := by
    rw [same]
    rfl
  have history : History network.crypto pool applied begun.utxoSet
      begun.claimedAddresses := by
    rw [same]
    exact admissible.history
  have kept : Delegated network.crypto before txs script spendingHash locktime done.utxoSet := by
    refine history.applyTransactions_invariant (fun state =>
      Delegated network.crypto before txs script spendingHash locktime state.utxoSet)
      admissible.distinct admissible.subset admissible.unrepeated ?_ finished
      (sameUtxos ▸ delegated)
    intro tx member state after effect fresh delegated
    exact delegated.effect (members tx member) effect fresh (wellFormed tx member) form
  exact kept

theorem Delegated.of_replays {options : ChainOptions} {main blocks : List Block}
    {ledger next : Ledger} {journals journals' : List BlockJournal}
    {pool txs : List Transaction} (distinct : DistinctTxids network.crypto pool)
    (form : scriptTypeOf script = some (.p2cs stakingHash spendingHash locktime))
    (earlier : Replays network options main ledger journals)
    (pooled : ∀ tx ∈ transactions (main ++ blocks), tx ∈ pool)
    (members : ∀ tx ∈ transactions blocks, tx ∈ txs)
    (later : Replays network options (main ++ blocks) next journals') :
    Delegated network.crypto ledger.utxoSet txs script spendingHash locktime
      next.utxoSet := by
  induction blocks using List.reverseRecOn generalizing next journals' with
  | nil =>
      rw [List.append_nil] at later
      rw [(earlier.unique later).1]
      exact ⟨fun key utxo held own => .inl ⟨utxo, held, own⟩, .inl le_rfl⟩
  | append_singleton blocks block ih =>
      rw [← List.append_assoc] at later pooled
      rw [transactions, List.flatMap_append, List.forall_mem_append] at pooled members
      rw [List.flatMap_singleton] at pooled members
      obtain ⟨middle, _, _, -, replayed, extended⟩ := later.last (by simp [earlier.ne_nil])
      exact (ih pooled.1 members.1 replayed).applyBlock
        (replayed.admissible extended.valid distinct pooled.1 pooled.2) members.2
        (replayed.wellFormed extended.valid) form extended.applied

end Plain

/-!
## A delegation

The verifier of this example accepts signatures by one key only, so that whatever is
spent is spent by that key alone.
-/

namespace Delegation

def hotKey : Bytes := 2 :: List.replicate 32 1

def coldKey : Bytes := 3 :: List.replicate 32 1

/-- The shortest DER signature, followed by the byte of the signed parts. -/
def signature : Bytes := [0x30, 0x06, 0x02, 0x01, 0x01, 0x02, 0x01, 0x01, 0x01]

def crypto (signer : Bytes) : Crypto :=
  { Regtest.crypto with
    base58 := fun _ => "V1"
    verifyEcdsa := fun _ sig pubkey => sig == signature.dropLast && pubkey == signer }

def network (signer : Bytes) : Network := ⟨crypto signer, [("V1", 500)]⟩

/-- Delegated to the hot key, and locked for the cold key until height 1000. -/
def script : Bytes :=
  match buildP2cs (Regtest.crypto.hash160 hotKey) (Regtest.crypto.hash160 coldKey) 1000 with
  | .ok script => script.bytes
  | .error _ => []

theorem script_form : scriptTypeOf script =
    some (.p2cs (Regtest.crypto.hash160 hotKey).toList
      (Regtest.crypto.hash160 coldKey).toList 1000) := by
  decide +kernel

def wrapped : Bytes := 0xa9 :: 0x14 :: (Regtest.crypto.hash160 script).toList ++ [0x87]

def push (data : Bytes) : Bytes := UInt8.ofNat data.length :: data

/-- A spend by the hot key that hides the redeem script behind a dropped push. -/
def veiled : Bytes :=
  push signature ++ push hotKey ++ 0x51 :: push script ++ push [0] ++ [0x75]

def recovering : Bytes := push signature ++ push coldKey ++ push [] ++ push script

def utxo (scriptPubkey : Bytes) : Utxo where
  txid := zeroHash
  vout := 0
  value := 1000
  scriptPubkey := scriptPubkey
  height := 1
  timestamp := 0

def context (height : Nat) : BlockContext where
  blockHash := zeroHash
  height := height
  timestamp := 5
  parentStakeModifier := 0
  governanceActive := false
  genesisHash := zeroHash
  bootstrapped := false

/-- A payment of the delegated coins to somebody else. -/
def payment (scriptSig : Bytes) (lockTime : UInt32) : Transaction where
  version := 1
  txType := .standard
  inputs := [⟨zeroHash, 0, scriptSig, 0⟩]
  outputs := [⟨1000, [0x51]⟩]
  lockTime := lockTime
  claimAddress := none
  claimSignature := none

def ledger (held : Utxo) : Ledger :=
  { Regtest.fresh.toLedger with utxoSet := (∅ : UtxoSet).insert held.outPoint held }

def start (held : Utxo) (height : Nat) : Applying := .start (context height) (ledger held)

def spending (scriptPubkey scriptSig : Bytes) : SpentInput :=
  ⟨0, ⟨zeroHash, 0, scriptSig, 0⟩, utxo scriptPubkey⟩

def accepts {σ α : Type} (result : EStateM.Result NodeError σ α) : Bool :=
  match result with
  | .ok _ _ => true
  | .error _ _ => false

theorem exists_of_accepts {σ α : Type} {result : EStateM.Result NodeError σ α}
    (accepted : accepts result = true) : ∃ value after, result = .ok value after := by
  cases result with
  | ok value after => exact ⟨value, after, rfl⟩
  | error error after => cases accepted

theorem spending_mem (scriptPubkey scriptSig : Bytes) (lockTime : UInt32) (height : Nat) :
    spending scriptPubkey scriptSig ∈ spentBy (start (utxo scriptPubkey) height).utxoSet 0
      (payment scriptSig lockTime).spendable := by
  have single : (payment scriptSig lockTime).spendable = [⟨zeroHash, 0, scriptSig, 0⟩] :=
    rfl
  have found : (start (utxo scriptPubkey) height).utxoSet[
      TxInput.outPoint ⟨zeroHash, 0, scriptSig, 0⟩]? = some (utxo scriptPubkey) :=
    ExtTreeMap.getElem?_insert_self
  rw [single, spentBy, found]
  exact List.mem_cons_self

def claim : Transaction where
  version := 1
  txType := .legacyClaim
  inputs := [⟨zeroHash, 0, [], 0⟩]
  outputs := [⟨500, [0x51]⟩]
  lockTime := 0
  claimAddress := some "V1"
  claimSignature := some (List.replicate 65 31)

/-- A delegated output under the id of the coinbase of the funding block. -/
def overwritten : Utxo :=
  { utxo script with txid := (Regtest.funding.transactions.map
      (Transaction.txid Regtest.crypto)).headD zeroHash }

/-- Whether a block is accepted and lowers what the delegation locks. -/
def lowers (result : EStateM.Result NodeError Ledger BlockJournal) (before : Ledger) :
    Bool :=
  match result with
  | .ok _ after =>
      decide (lockedValue script after.utxoSet < lockedValue script before.utxoSet)
  | .error _ _ => false

theorem exists_of_lowers {result : EStateM.Result NodeError Ledger BlockJournal}
    {before : Ledger} (lowered : lowers result before = true) :
    ∃ journal after, result = .ok journal after ∧
      lockedValue script after.utxoSet < lockedValue script before.utxoSet := by
  cases result with
  | ok journal after => exact ⟨journal, after, rfl, of_decide_eq_true lowered⟩
  | error error after => cases lowered

theorem not_coldSpends {crypto : Crypto} {tx : Transaction} {spendingHash : Bytes}
    {locktime : UInt32} {held : OutPoint → Prop}
    (silent : ∀ input ∈ tx.inputs, input.scriptSig = []) :
    ¬ ColdSpends crypto tx script spendingHash locktime held := by
  rintro ⟨-, index, input, found, -, -, sig, pushed, -⟩
  rw [silent input (List.mem_of_getElem? found)] at pushed
  cases pushed

theorem wrapped_form : scriptTypeOf wrapped = some .p2sh := by
  decide

theorem recovering_and_veiled_accepted :
    (accepts (applyTransactionJournaled (network coldKey) (context 1000)
        (payment recovering 1000) (start (utxo wrapped) 1000)) = true ∧
      executedRedeem (crypto coldKey) (context 1000) (payment recovering 1000)
        (spending wrapped recovering) = some script ∧
      (Script.mk recovering).pushes.getLast? = some script ∧
      ((crypto coldKey).hash160 script).toList = scriptHashOf wrapped) ∧
    accepts (applyTransactionJournaled (network hotKey) (context 5) (payment veiled 0)
        (start (utxo wrapped) 5)) = true ∧
      executedRedeem (crypto hotKey) (context 5) (payment veiled 0)
        (spending wrapped veiled) = some script ∧
      ¬ ColdSigned (crypto hotKey) (payment veiled 0) 0 wrapped veiled
        ((crypto hotKey).hash160 coldKey).toList 1000 := by
  decide +kernel

def delegating : Block :=
  Regtest.withBody (Regtest.mine Regtest.network.genesisBlock.header 1 1 [])
    [{ Regtest.coinbase 1 with outputs := [⟨5 * 10 ^ 10, script⟩] }]

def restake : Transaction where
  version := 1
  txType := .coinstake
  inputs := [⟨(delegating.transactions.map (Transaction.txid Regtest.crypto)).headD zeroHash, 0,
    push signature ++ push hotKey ++ [0x51], 0⟩]
  outputs := [⟨0, []⟩, ⟨5 * 10 ^ 10, script⟩]
  lockTime := 2
  claimAddress := none
  claimSignature := none

def delivered (blocks : List Block) : Chain :=
  (Regtest.freshOn (network hotKey)).deliverAll (network hotKey) (Regtest.deliveries blocks)

/-- A block with that coinstake six hours later, under a root of the unspent outputs. -/
def stakingUnder (utxoRoot : Hash) : Block :=
  let mined := Regtest.mine delegating.header 2 0 []
  Regtest.withBody { mined with header := { mined.header with
    timestamp := delegating.header.timestamp + 21600
    utxoRoot := utxoRoot } } [restake]

def staking : Block :=
  stakingUnder (match applyBlockJournaled (network hotKey) (MainChain.context (network hotKey)
      Regtest.options [(network hotKey).genesisBlock, delegating] (stakingUnder zeroHash))
      [restake] (delivered [delegating]).toLedger with
    | .ok journal _ => journal.utxoRoot
    | .error _ _ => zeroHash)

theorem staking_accepted :
    (delivered [delegating, staking]).mainBodies =
        (delivered [delegating]).mainBodies ++ [staking] ∧
      ((delivered [delegating]).utxoSet[(restake.inputs.map TxInput.outPoint).headD
        ⟨zeroHash, 0⟩]?.map Utxo.scriptPubkey) = some script ∧
      lockedValue script (delivered [delegating]).utxoSet = 5 * 10 ^ 10 ∧
      DistinctTxids (crypto hotKey) (poolOf (network hotKey)
        (Regtest.deliveries [delegating, staking])) := by
  decide +kernel

end Delegation

section Wrapped

variable {network : Network} {context : BlockContext} {tx : Transaction}

/-- An input that spends a delegated output behind a script hash carries a signature by
the cold key, as long as the last push of its script is the revealed script. -/
theorem wrapped_spend_coldSigned {state after : Applying}
    (applied : applyTransactionJournaled network context tx state = .ok () after)
    (notStake : tx.isCoinstake = false) {spending : SpentInput}
    (spends : spending ∈ spentBy state.utxoSet 0 tx.spendable)
    (wrapped : scriptTypeOf spending.utxo.scriptPubkey = some .p2sh)
    {redeem stakingHash spendingHash : Bytes} {locktime : UInt32}
    (executed : executedRedeem network.crypto context tx spending = some redeem)
    (delegated : scriptTypeOf redeem = some (.p2cs stakingHash spendingHash locktime))
    {push : Bytes} (last : (Script.mk spending.input.scriptSig).pushes.getLast? = some push)
    (revealed : (network.crypto.hash160 push).toList =
      scriptHashOf spending.utxo.scriptPubkey)
    (collisionFree : network.crypto.hash160 push = network.crypto.hash160 redeem →
      push = redeem) :
    ColdSigned network.crypto tx spending.index spending.utxo.scriptPubkey
      spending.input.scriptSig spendingHash locktime := by
  have effect := applyTransactionJournaled_eq_ok applied
  unfold executedRedeem at executed
  split at executed
  · cases executed
  · rename_i notClaim
    obtain ⟨read, accepted, cold⟩ := authorizeSpend_eq_ok
      (effect.authorized spending spends) (by simpa using notClaim)
    have hashed := isP2sh_of_classify (scriptTypeOf_eq_some wrapped).2
    split at executed
    · rename_i afterSig ranSig
      have matched := hash160_of_execute hashed accepted ranSig executed
      obtain rfl := collisionFree (Subtype.ext (revealed.trans matched.symm))
      have governs : p2csRedeemScript spending.utxo.scriptPubkey
          spending.input.scriptSig = some push := by
        simp [p2csRedeemScript, wrapped, read, last, delegated]
      exact coldSigned_of_authorized (cold notStake (by simp [governs])) governs delegated
    · cases executed

theorem recovering_coldSigned :
    ColdSigned (Delegation.crypto Delegation.coldKey)
      (Delegation.payment Delegation.recovering 1000) 0 Delegation.wrapped
      Delegation.recovering (Regtest.crypto.hash160 Delegation.coldKey).toList 1000 := by
  obtain ⟨⟨accepted, executed, last, revealed⟩, -⟩ := Delegation.recovering_and_veiled_accepted
  obtain ⟨_, after, applied⟩ := Delegation.exists_of_accepts accepted
  exact wrapped_spend_coldSigned applied rfl (Delegation.spending_mem _ _ _ _)
    Delegation.wrapped_form executed Delegation.script_form last revealed fun _ => rfl

/-- The hot key alone moves delegated coins behind a script hash. -/
theorem wrapped_spend_by_hot_key :
    let crypto := Delegation.crypto Delegation.hotKey
    let tx := Delegation.payment Delegation.veiled 0
    let state := Delegation.start (Delegation.utxo Delegation.wrapped) 5
    let spending := Delegation.spending Delegation.wrapped Delegation.veiled
    (∃ done after, applyTransactionJournaled (Delegation.network Delegation.hotKey)
      (Delegation.context 5) tx state = .ok done after) ∧
    tx.isCoinstake = false ∧ spending ∈ spentBy state.utxoSet 0 tx.spendable ∧
    scriptTypeOf spending.utxo.scriptPubkey = some .p2sh ∧
    executedRedeem crypto (Delegation.context 5) tx spending = some Delegation.script ∧
    scriptTypeOf Delegation.script = some (.p2cs
      (crypto.hash160 Delegation.hotKey).toList
      (crypto.hash160 Delegation.coldKey).toList 1000) ∧
    ¬ ColdSigned crypto tx 0 Delegation.wrapped Delegation.veiled
      (crypto.hash160 Delegation.coldKey).toList 1000 := by
  obtain ⟨-, accepted, executed, unsigned⟩ := Delegation.recovering_and_veiled_accepted
  exact ⟨Delegation.exists_of_accepts accepted, rfl, Delegation.spending_mem _ _ _ _,
    Delegation.wrapped_form, executed, Delegation.script_form, unsigned⟩

end Wrapped

section Blocks

variable {network : Network} {context : BlockContext}
  {script stakingHash spendingHash : Bytes} {locktime : UInt32}

/-- A validated block never lowers what a delegation script locks, unless it holds a
transaction outside staking that spends an output of the script with the cold key.  Neither
does any run of deliveries that extends the main chain, and there no transaction id needs to
be new. -/
theorem lockedValue_kept
    (form : scriptTypeOf script = some (.p2cs stakingHash spendingHash locktime)) :
    (∀ {context : BlockContext} {before after : Ledger} {journal : BlockJournal} {now : UInt32}
        {block : Block} {parent : ParentView} {allowPow : Bool},
      validateBlockInner network.crypto now block parent allowPow = .ok () →
      applyBlockJournaled network context block.transactions before = .ok journal after →
      DistinctTxids network.crypto block.transactions →
      (∀ tx ∈ block.transactions, FreshTxid network.crypto tx before.utxoSet) →
      lockedValue script before.utxoSet ≤ lockedValue script after.utxoSet ∨
        ∃ tx ∈ block.transactions, ColdSpends network.crypto tx script spendingHash locktime
          (HeldInBlock network.crypto before.utxoSet block.transactions script)) ∧
    ∀ {options : ChainOptions} {fresh : Chain} {early late : List Delivery}
        {blocks : List Block},
      Chain.newWith network options = .ok fresh →
      DistinctTxids network.crypto (poolOf network (early ++ late)) →
      (fresh.deliverAll network (early ++ late)).mainBodies =
        (fresh.deliverAll network early).mainBodies ++ blocks →
      lockedValue script (fresh.deliverAll network early).utxoSet ≤
          lockedValue script (fresh.deliverAll network (early ++ late)).utxoSet ∨
        ∃ tx ∈ transactions blocks, ColdSpends network.crypto tx script spendingHash locktime
          (HeldInBlock network.crypto (fresh.deliverAll network early).utxoSet
            (transactions blocks) script) := by
  constructor
  · intro context before after journal now block parent allowPow validated applied distinct
      fresh
    obtain ⟨valid, -⟩ := validateBlockInner_eq_ok.mp validated
    have admissible : Admissible network.crypto block.transactions [] before
        block.transactions :=
      ⟨⟨fun tx member _ vout => fresh tx member vout, by simp, by simp, List.nodup_nil⟩,
        distinct, fun _ member => member, valid.unrepeated (by simp)⟩
    have start : Delegated network.crypto before.utxoSet block.transactions script spendingHash
        locktime before.utxoSet :=
      ⟨fun key utxo held own => .inl ⟨utxo, held, own⟩, .inl le_rfl⟩
    exact (start.applyBlock admissible (fun _ member => member)
      (fun _ member => valid.wellFormed member) form applied).kept
  · intro options fresh early late blocks created distinct extended
    have covers : ∀ tx ∈ poolOf network early, tx ∈ poolOf network (early ++ late) := by
      intro tx member
      rw [poolOf, List.flatMap_append, ← List.append_assoc]
      exact List.mem_append_left _ member
    obtain ⟨main, journals, reached⟩ := reachable_replayed distinct covers created
    obtain ⟨main', journals', reached'⟩ := reachable_replayed distinct
      (fun _ member => member) created
    obtain ⟨bodies, rfl⟩ := reached.held.replays.head
    obtain ⟨bodies', rfl⟩ := reached'.held.replays.head
    rw [reached.toTracks.mainBodies, reached'.toTracks.mainBodies] at extended
    subst extended
    exact (Delegated.of_replays distinct form reached.held.replays reached'.held.pooled
      (fun _ member => member) reached'.held.replays).kept

/-- The hot key stakes all delegated coins, and they are locked as before. -/
theorem lockedValue_kept_of_staking :
    Delegation.staking.transactions = [Delegation.restake] ∧
      ((Delegation.delivered [Delegation.delegating]).utxoSet[
        (Delegation.restake.inputs.map TxInput.outPoint).headD ⟨zeroHash, 0⟩]?.map
          Utxo.scriptPubkey) = some Delegation.script ∧
      (Delegation.delivered [Delegation.delegating, Delegation.staking]).mainBodies =
        (Delegation.delivered [Delegation.delegating]).mainBodies ++ [Delegation.staking] ∧
      lockedValue Delegation.script (Delegation.delivered [Delegation.delegating]).utxoSet =
        5 * 10 ^ 10 ∧
      lockedValue Delegation.script (Delegation.delivered [Delegation.delegating]).utxoSet ≤
        lockedValue Delegation.script
          (Delegation.delivered [Delegation.delegating, Delegation.staking]).utxoSet := by
  obtain ⟨extended, delegated, locked, distinct⟩ := Delegation.staking_accepted
  refine ⟨rfl, delegated, extended, locked, ?_⟩
  have joined : Regtest.deliveries [Delegation.delegating, Delegation.staking] =
      Regtest.deliveries [Delegation.delegating] ++ Regtest.deliveries [Delegation.staking] :=
    rfl
  unfold Delegation.delivered at extended ⊢
  rw [joined] at extended distinct ⊢
  refine ((lockedValue_kept Delegation.script_form).2
    (Regtest.newWith_freshOn (by decide)) distinct extended).resolve_right ?_
  rintro ⟨tx, member, notStake, -⟩
  have same : transactions [Delegation.staking] = [Delegation.restake] := rfl
  rw [same, List.mem_singleton] at member
  rw [member] at notStake
  cases notStake

/-- Without validation a claim takes delegated coins, and a transaction whose id is in
use already overwrites them. -/
theorem lockedValue_lowered :
    (∃ journal after, applyBlockJournaled (Delegation.network Delegation.hotKey)
        (Delegation.context 5) [Delegation.claim]
        (Delegation.ledger (Delegation.utxo Delegation.script)) = .ok journal after ∧
      lockedValue Delegation.script after.utxoSet < lockedValue Delegation.script
        (Delegation.ledger (Delegation.utxo Delegation.script)).utxoSet) ∧
    (∀ held, ¬ ∃ tx ∈ [Delegation.claim],
      ColdSpends (Delegation.crypto Delegation.hotKey) tx Delegation.script
        (Regtest.crypto.hash160 Delegation.coldKey).toList 1000 held) ∧
    validateBlockInner Regtest.crypto 2000000000 Regtest.funding Regtest.genesisParent
      true = .ok () ∧
    (∃ journal after, applyBlockJournaled Regtest.network (Delegation.context 1)
        Regtest.funding.transactions (Delegation.ledger Delegation.overwritten) =
        .ok journal after ∧
      lockedValue Delegation.script after.utxoSet < lockedValue Delegation.script
        (Delegation.ledger Delegation.overwritten).utxoSet) ∧
    ∀ held, ¬ ∃ tx ∈ Regtest.funding.transactions,
      ColdSpends Regtest.crypto tx Delegation.script
        (Regtest.crypto.hash160 Delegation.coldKey).toList 1000 held := by
  refine ⟨Delegation.exists_of_lowers (by decide +kernel), ?_, by decide +kernel,
    Delegation.exists_of_lowers (by decide +kernel), ?_⟩
  · rintro held ⟨tx, member, spends⟩
    obtain rfl := List.mem_singleton.mp member
    exact Delegation.not_coldSpends (by simp [Delegation.claim]) spends
  · rintro held ⟨tx, member, spends⟩
    obtain rfl := List.mem_singleton.mp member
    exact Delegation.not_coldSpends (by simp [Regtest.coinbase]) spends

end Blocks

end Vtorrent
