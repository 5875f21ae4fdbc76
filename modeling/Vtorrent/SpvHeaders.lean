import Vtorrent.CompactTargets
import Vtorrent.DeliveredBlocks

/-!
# The header chain of the light client

The light client stores headers by their hashes, with the work summed up from each
header's parent, and follows the header of most work.  A header states its own height,
which its hash does not cover; the checks against the parent are made only when that
height is not zero and the parent is stored already.
-/

namespace Vtorrent

open Std

namespace Spv

/-- `SpvHeader`: a block header with the height it is sent with. -/
structure Header extends BlockHeader where
  height : UInt32
  deriving DecidableEq

/-- The errors that adding a header can return. -/
inductive HeaderError where
  | headerValidation (reason : String)
  | heightMismatch (expected got : UInt32)
  | unknownParent (hash : String)
  deriving DecidableEq

/-- `SpvChain`. -/
structure Chain where
  headers : ExtTreeMap Hash Header
  work : ExtTreeMap Hash Nat
  bestHash : Option Hash
  bestHeight : UInt32

namespace Chain

def new : Chain := ⟨∅, ∅, none, 0⟩

def workOf (chain : Chain) (hash : Hash) : Nat := chain.work[hash]?.getD 0

/-- The cumulative work of a header on top of its parent, `u128::saturating_add`. -/
def cumulative (chain : Chain) (header : Header) : Nat :=
  let parentWork :=
    if header.height = 0 ∨ header.prevBlockHash ∉ chain.headers then 0
    else chain.workOf header.prevBlockHash
  min (parentWork + headerWork header.bits) (2 ^ 128 - 1)

def store (hash : Hash) (header : Header) (chain : Chain) : Chain :=
  let work := chain.cumulative header
  let stored : Chain :=
    { chain with
      headers := chain.headers.insert hash header
      work := chain.work.insert hash work }
  if chain.bestHash.isNone ∨ work > stored.workOf (chain.bestHash.getD zeroHash) then
    { stored with bestHeight := header.height, bestHash := some hash }
  else stored

/-- The checks against the parent, which a header of height zero skips.  Where the height of the
parent is the largest one the source panics, and the next height is zero here. -/
def checkParent (header : Header) : Option Header → Except HeaderError Unit
  | none => pure ()
  | some parent => do
      rejectIf (decide (header.height > 0) && decide (header.timestamp ≤ parent.timestamp))
        (HeaderError.headerValidation "header timestamp must exceed parent timestamp")
      rejectIf (decide (header.height > 0) && header.height != parent.height + 1)
        (HeaderError.heightMismatch (parent.height + 1) header.height)

/-- `add_header_inner`, at a time of the system clock.  In the last two hours of that clock the
source panics, and the bound wraps around here. -/
def addHeaderInner (crypto : Crypto) (now : UInt32) (trusted : Bool) (header : Header)
    (chain : Chain) : Except HeaderError Chain := do
  let hash := header.hash crypto
  if hash ∈ chain.headers then pure chain
  else do
    rejectIf (decide (header.height > 0) && !chain.headers.contains header.prevBlockHash &&
        !(trusted && chain.headers.isEmpty))
      (HeaderError.unknownParent (hexEncode header.prevBlockHash.toList))
    rejectIf (!trusted && !hashMeetsTarget hash header.bits)
      (HeaderError.headerValidation ("hash " ++ hexEncode hash.toList ++
        " does not meet target " ++ hexEncode (leBytes 4 header.bits.toNat).reverse))
    rejectIf (decide (header.timestamp > now + 7200))
      (HeaderError.headerValidation ("header timestamp " ++ toString header.timestamp ++
        " too far in the future"))
    checkParent header chain.headers[header.prevBlockHash]?
    pure (chain.store hash header)

/-- `add_header`. -/
def addHeader (crypto : Crypto) (now : UInt32) (header : Header) (chain : Chain) :
    Except HeaderError Chain := do
  rejectIf header.isPos
    (HeaderError.headerValidation "PoS headers require full-block stake validation")
  addHeaderInner crypto now false header chain

/-- `add_trusted_header`. -/
def addTrustedHeader (crypto : Crypto) (now : UInt32) (header : Header) (chain : Chain) :
    Except HeaderError Chain :=
  addHeaderInner crypto now true header chain

/-- Add headers until one is refused; the answer counts the added ones, or is the error
when there are none. -/
def addHeadersFrom (crypto : Crypto) :
    Nat → List (UInt32 × Header) → Chain → Except HeaderError Nat × Chain
  | added, [], chain => (.ok added, chain)
  | added, (now, header) :: headers, chain =>
      match addHeader crypto now header chain with
      | .ok after => addHeadersFrom crypto (added + 1) headers after
      | .error error => (if added = 0 then .error error else .ok added, chain)

/-- `add_headers`, each header with the clock at its turn. -/
def addHeaders (crypto : Crypto) (headers : List (UInt32 × Header)) (chain : Chain) :
    Except HeaderError Nat × Chain :=
  addHeadersFrom crypto 0 headers chain

end Chain

inductive Call where
  | addHeader (now : UInt32) (header : Header)
  | addTrustedHeader (now : UInt32) (header : Header)
  | addHeaders (headers : List (UInt32 × Header))

def Chain.settle (chain : Chain) : Except HeaderError Chain → Chain
  | .ok after => after
  | .error _ => chain

def Call.perform (crypto : Crypto) (chain : Chain) : Call → Chain
  | .addHeader now header => chain.settle (chain.addHeader crypto now header)
  | .addTrustedHeader now header => chain.settle (chain.addTrustedHeader crypto now header)
  | .addHeaders headers => (chain.addHeaders crypto headers).2

def Chain.performAll (crypto : Crypto) (calls : List Call) (chain : Chain) : Chain :=
  calls.foldl (Call.perform crypto) chain

/-- Every stored header whose parent is stored is one higher and later than the parent,
and its work is the parent's and its own. -/
def Chain.Linked (chain : Chain) : Prop :=
  ∀ hash header parent, chain.headers[hash]? = some header →
    chain.headers[header.prevBlockHash]? = some parent →
      header.height.toNat = parent.height.toNat + 1 ∧ parent.timestamp < header.timestamp ∧
        chain.workOf hash = chain.workOf header.prevBlockHash + headerWork header.bits

/-- The followed header is a stored one of most work, and its height is known. -/
def Chain.FollowsMost (chain : Chain) : Prop :=
  (∀ hash, hash ∉ chain.headers) ∧ chain.bestHash = none ∨
    ∃ hash header, chain.bestHash = some hash ∧ chain.headers[hash]? = some header ∧
      chain.bestHeight = header.height ∧
      ∀ other ∈ chain.headers, chain.workOf other ≤ chain.workOf hash

/-- A header that comes after its parent and before its children, states a height above
zero on top of a stored parent, and whose work can still be counted. -/
structure Fits (crypto : Crypto) (chain : Chain) (header : Header) : Prop where
  childless : ∀ (hash : Hash) (child : Header), chain.headers[hash]? = some child →
    child.prevBlockHash ≠ header.hash crypto
  proper : header.prevBlockHash ≠ header.hash crypto
  above : header.prevBlockHash ∈ chain.headers → header.height ≠ 0 ∧
    chain.workOf header.prevBlockHash + headerWork header.bits < 2 ^ 128

/-- Every header of a list that is accepted and not stored yet meets a condition when its turn
comes. -/
def MeetEach (condition : Chain → Header → Prop) (crypto : Crypto) :
    List (UInt32 × Header) → Chain → Prop
  | [], _ => True
  | (now, header) :: headers, chain =>
      ∀ after, chain.addHeader crypto now header = .ok after →
        (header.hash crypto ∉ chain.headers → condition chain header) ∧
          MeetEach condition crypto headers after

/-- Every header of a call that is accepted and not stored yet meets a condition when its turn
comes. -/
def Call.Meets (condition : Chain → Header → Prop) (crypto : Crypto) (chain : Chain) :
    Call → Prop
  | .addHeader now header => ∀ after, chain.addHeader crypto now header = .ok after →
      header.hash crypto ∉ chain.headers → condition chain header
  | .addTrustedHeader now header => ∀ after, chain.addTrustedHeader crypto now header = .ok after →
      header.hash crypto ∉ chain.headers → condition chain header
  | .addHeaders headers => MeetEach condition crypto headers chain

/-- Every call of a run meets a condition in the chain it finds. -/
def MeetAll (condition : Chain → Header → Prop) (crypto : Crypto) : List Call → Chain → Prop
  | [], _ => True
  | call :: calls, chain =>
      call.Meets condition crypto chain ∧
        MeetAll condition crypto calls (call.perform crypto chain)

section Store

variable {chain : Chain} {hash : Hash} {header : Header}

@[simp]
theorem headers_store (chain : Chain) (hash : Hash) (header : Header) :
    (chain.store hash header).headers = chain.headers.insert hash header := by
  unfold Chain.store
  dsimp only
  split <;> rfl

@[simp]
theorem work_store (chain : Chain) (hash : Hash) (header : Header) :
    (chain.store hash header).work = chain.work.insert hash (chain.cumulative header) := by
  unfold Chain.store
  dsimp only
  split <;> rfl

theorem workOf_store_self : (chain.store hash header).workOf hash = chain.cumulative header := by
  rw [Chain.workOf, work_store, ExtTreeMap.getElem?_insert_self, Option.getD_some]

theorem workOf_store_of_ne {other : Hash} (different : other ≠ hash) :
    (chain.store hash header).workOf other = chain.workOf other := by
  rw [Chain.workOf, work_store, ExtTreeMap.getElem?_insert,
    if_neg fun same => different (LawfulEqOrd.eq_of_compare same).symm]
  rfl

theorem best_store {best : Hash} (followed : chain.bestHash = some best)
    (different : best ≠ hash) :
    ((chain.store hash header).bestHash, (chain.store hash header).bestHeight) =
      if chain.cumulative header > chain.workOf best then (some hash, header.height)
      else (some best, chain.bestHeight) := by
  have unmoved : Chain.workOf { chain with
      headers := chain.headers.insert hash header
      work := chain.work.insert hash (chain.cumulative header) } (chain.bestHash.getD zeroHash) =
        chain.workOf best := by
    rw [← @workOf_store_of_ne chain hash header best different, followed, Option.getD_some,
      Chain.workOf, Chain.workOf, work_store]
  by_cases more : chain.cumulative header > chain.workOf best
  · rw [if_pos more, Chain.store]
    dsimp only
    rw [if_pos (.inr (by rwa [unmoved]))]
  · rw [if_neg more, Chain.store]
    dsimp only
    rw [if_neg (by rw [not_or, unmoved]; exact ⟨by simp [followed], more⟩), followed]

theorem getElem?_store {other : Hash} {found : Header}
    (held : (chain.store hash header).headers[other]? = some found) :
    other = hash ∧ found = header ∨ other ≠ hash ∧ chain.headers[other]? = some found := by
  rw [headers_store, ExtTreeMap.getElem?_insert] at held
  split at held
  · rename_i same
    exact .inl ⟨(LawfulEqOrd.eq_of_compare same).symm, (Option.some.inj held).symm⟩
  · rename_i different
    refine .inr ⟨?_, held⟩
    rintro rfl
    exact different compare_self

end Store

section Step

variable {crypto : Crypto} {chain after : Chain} {now : UInt32} {trusted : Bool}
  {header : Header}

/-- What adding a header leaves, and what was checked against a stored parent. -/
theorem addHeaderInner_eq_ok
    (added : chain.addHeaderInner crypto now trusted header = .ok after) :
    header.hash crypto ∈ chain.headers ∧ after = chain ∨
      header.hash crypto ∉ chain.headers ∧ after = chain.store (header.hash crypto) header ∧
        ∀ parent, chain.headers[header.prevBlockHash]? = some parent → header.height ≠ 0 →
          parent.timestamp < header.timestamp ∧ header.height = parent.height + 1 := by
  unfold Chain.addHeaderInner at added
  dsimp only at added
  split at added
  · rename_i known
    exact .inl ⟨known, (Checked.pure_eq_ok.mp added).symm⟩
  · rename_i fresh
    simp only [Checked.bind_eq_ok, Checked.rejectIf_eq_ok, Checked.pure_eq_ok] at added
    obtain ⟨_, -, _, -, _, -, _, checks, rfl⟩ := added
    refine .inr ⟨fresh, rfl, fun parent held nonzero => ?_⟩
    have positive : header.height > 0 := UInt32.pos_iff_ne_zero.mpr nonzero
    simpa [held, Chain.checkParent, positive] using checks

theorem toNat_height {parent : Header} (above : header.height = parent.height + 1)
    (nonzero : header.height ≠ 0) : header.height.toNat = parent.height.toNat + 1 := by
  have bound := parent.height.toNat_lt
  have wrapped : header.height.toNat = (parent.height.toNat + 1) % 2 ^ 32 := by
    rw [above, UInt32.toNat_add, UInt32.toNat_one]
  have positive : header.height.toNat ≠ 0 := by
    intro zero
    exact nonzero (UInt32.toNat_inj.mp zero)
  rw [wrapped] at positive ⊢
  rcases Nat.lt_or_ge (parent.height.toNat + 1) (2 ^ 32) with small | large
  · exact Nat.mod_eq_of_lt small
  · have full : parent.height.toNat + 1 = 2 ^ 32 := by omega
    rw [full, Nat.mod_self] at positive
    exact absurd rfl positive

theorem Fits.linked (fits : Fits crypto chain header) (linked : chain.Linked)
    (checked : ∀ parent, chain.headers[header.prevBlockHash]? = some parent →
      header.height ≠ 0 →
        parent.timestamp < header.timestamp ∧ header.height = parent.height + 1) :
    (chain.store (header.hash crypto) header).Linked := by
  intro hash found parent held parentHeld
  rcases getElem?_store held with ⟨rfl, rfl⟩ | ⟨other, old⟩
  · rcases getElem?_store parentHeld with ⟨same, -⟩ | ⟨-, oldParent⟩
    · exact absurd same fits.proper
    · have stored : found.prevBlockHash ∈ chain.headers := ExtTreeMap.mem_iff_isSome_getElem?.mpr
        (by rw [oldParent]; rfl)
      obtain ⟨nonzero, counted⟩ := fits.above stored
      obtain ⟨later, above⟩ := checked parent oldParent nonzero
      refine ⟨toNat_height above nonzero, later, ?_⟩
      have skipped : ¬(found.height = 0 ∨ found.prevBlockHash ∉ chain.headers) := by
        simp [nonzero, stored]
      rw [workOf_store_self, workOf_store_of_ne fits.proper, Chain.cumulative, if_neg skipped]
      omega
  · rcases getElem?_store parentHeld with ⟨same, -⟩ | ⟨otherParent, oldParent⟩
    · exact absurd same (fits.childless hash found old)
    · obtain ⟨above, later, work⟩ := linked hash found parent old oldParent
      exact ⟨above, later, by rw [workOf_store_of_ne other, workOf_store_of_ne otherParent, work]⟩

theorem followsMost_store {hash : Hash} (fresh : hash ∉ chain.headers)
    (follows : chain.FollowsMost) : (chain.store hash header).FollowsMost := by
  have known : ∀ other ∈ (chain.store hash header).headers,
      other = hash ∨ other ≠ hash ∧ other ∈ chain.headers := by
    intro other member
    rw [headers_store, ExtTreeMap.mem_insert] at member
    by_cases same : other = hash
    · exact .inl same
    · refine .inr ⟨same, member.resolve_left fun equal => same ?_⟩
      exact (LawfulEqOrd.eq_of_compare equal).symm
  have held : (chain.store hash header).headers[hash]? = some header := by
    rw [headers_store, ExtTreeMap.getElem?_insert_self]
  rcases follows with ⟨empty, none⟩ | ⟨best, bestHeader, followed, bestHeld, height, most⟩
  · refine .inr ⟨hash, header, ?_, held, ?_, ?_⟩
    · simp [Chain.store, none]
    · simp [Chain.store, none]
    · intro other member
      rcases known other member with rfl | ⟨-, old⟩
      · exact le_rfl
      · exact absurd old (empty other)
  · have bestMember : best ∈ chain.headers :=
      ExtTreeMap.mem_iff_isSome_getElem?.mpr (by rw [bestHeld]; rfl)
    have different : best ≠ hash := fun same => fresh (same ▸ bestMember)
    have moved := @best_store chain hash header best followed different
    by_cases more : chain.cumulative header > chain.workOf best
    · rw [if_pos more, Prod.mk.injEq] at moved
      refine .inr ⟨hash, header, moved.1, held, moved.2, ?_⟩
      · intro other member
        rw [workOf_store_self]
        rcases known other member with rfl | ⟨apart, old⟩
        · rw [workOf_store_self]
        · rw [workOf_store_of_ne apart]
          exact (most other old).trans more.le
    · rw [if_neg more, Prod.mk.injEq] at moved
      refine .inr ⟨best, bestHeader, moved.1, ?_, moved.2.trans height, ?_⟩
      · rw [headers_store, ExtTreeMap.getElem?_insert,
          if_neg fun same => different (LawfulEqOrd.eq_of_compare same).symm]
        exact bestHeld
      · intro other member
        rw [workOf_store_of_ne different]
        rcases known other member with rfl | ⟨apart, old⟩
        · rw [workOf_store_self]
          exact Nat.le_of_not_lt more
        · rw [workOf_store_of_ne apart]
          exact most other old

end Step

section Run

variable {crypto : Crypto} {chain : Chain} {holds : Chain → Prop}
  {condition : Chain → Header → Prop}

theorem addHeadersFrom_invariant
    (step : ∀ {chain after now trusted header}, holds chain →
      (header.hash crypto ∉ chain.headers → condition chain header) →
      chain.addHeaderInner crypto now trusted header = .ok after → holds after)
    (headers : List (UInt32 × Header)) (added : Nat) (start : holds chain)
    (meets : MeetEach condition crypto headers chain) :
    holds (chain.addHeadersFrom crypto added headers).2 := by
  induction headers generalizing chain added with
  | nil => exact start
  | cons first headers ih =>
      rw [Chain.addHeadersFrom]
      cases answer : chain.addHeader crypto first.1 first.2 with
      | error error => exact start
      | ok after =>
          have passed := answer
          simp only [Chain.addHeader, Checked.bind_eq_ok] at passed
          obtain ⟨-, -, passed⟩ := passed
          obtain ⟨fits, later⟩ := meets after answer
          exact ih (added + 1) (step start fits passed) later

theorem Call.perform_invariant
    (step : ∀ {chain after now trusted header}, holds chain →
      (header.hash crypto ∉ chain.headers → condition chain header) →
      chain.addHeaderInner crypto now trusted header = .ok after → holds after)
    (call : Call) (start : holds chain) (meets : call.Meets condition crypto chain) :
    holds (call.perform crypto chain) := by
  cases call with
  | addHeader now header =>
      rw [Call.perform]
      cases answer : chain.addHeader crypto now header with
      | error error => exact start
      | ok after =>
          have passed := answer
          simp only [Chain.addHeader, Checked.bind_eq_ok] at passed
          obtain ⟨-, -, passed⟩ := passed
          exact step start (meets after answer) passed
  | addTrustedHeader now header =>
      rw [Call.perform]
      cases answer : chain.addTrustedHeader crypto now header with
      | error error => exact start
      | ok after => exact step start (meets after answer) answer
  | addHeaders headers => exact addHeadersFrom_invariant step headers 0 start meets

theorem performAll_invariant
    (step : ∀ {chain after now trusted header}, holds chain →
      (header.hash crypto ∉ chain.headers → condition chain header) →
      chain.addHeaderInner crypto now trusted header = .ok after → holds after)
    (calls : List Call) (start : holds chain) (meets : MeetAll condition crypto calls chain) :
    holds (chain.performAll crypto calls) := by
  induction calls generalizing chain with
  | nil => exact start
  | cons call calls ih =>
      obtain ⟨now, later⟩ := meets
      exact ih (call.perform_invariant step start now) later

theorem MeetEach.of_forall (always : ∀ chain header, condition chain header)
    (headers : List (UInt32 × Header)) (chain : Chain) :
    MeetEach condition crypto headers chain := by
  induction headers generalizing chain with
  | nil => trivial
  | cons first headers ih => exact fun after _ => ⟨fun _ => always _ _, ih after⟩

theorem MeetAll.of_forall (always : ∀ chain header, condition chain header)
    (calls : List Call) (chain : Chain) : MeetAll condition crypto calls chain := by
  induction calls generalizing chain with
  | nil => trivial
  | cons call calls ih =>
      refine ⟨?_, ih _⟩
      cases call with
      | addHeader | addTrustedHeader => exact fun _ _ _ => always _ _
      | addHeaders headers => exact MeetEach.of_forall always headers chain

end Run

namespace Sample

def root : Header where
  version := 1
  prevBlockHash := zeroHash
  merkleRoot := zeroHash
  utxoRoot := zeroHash
  timestamp := 1000
  bits := 0x20ffffff
  nonce := 1
  stakeModifier := 0
  height := 0

/-- A header on top of another one, ten seconds later, sent with a height. -/
def above (parent : Header) (height : UInt32) : Header :=
  { parent with
    prevBlockHash := parent.hash Vtorrent.Regtest.crypto
    timestamp := parent.timestamp + 10
    height := height }

def hard : Header := { root with bits := 0x13000001 }

def after (calls : List Call) : Chain := Chain.new.performAll Vtorrent.Regtest.crypto calls

def unlinkedAt (chain : Chain) (hash : Hash) : Bool :=
  match chain.headers[hash]? with
  | none => false
  | some header =>
      match chain.headers[header.prevBlockHash]? with
      | none => false
      | some parent => decide ¬(header.height.toNat = parent.height.toNat + 1 ∧
          parent.timestamp < header.timestamp ∧
          chain.workOf hash = chain.workOf header.prevBlockHash + headerWork header.bits)

theorem not_linked {chain : Chain} {hash : Hash} (unlinked : unlinkedAt chain hash = true) :
    ¬ chain.Linked := by
  intro linked
  unfold unlinkedAt at unlinked
  split at unlinked
  · cases unlinked
  · rename_i header held
    split at unlinked
    · cases unlinked
    · rename_i parent parentHeld
      exact of_decide_eq_true unlinked (linked hash header parent held parentHeld)

/-- A header sent with height zero. -/
def grounded : List Call := [.addTrustedHeader 5000 root, .addHeader 5000 (above root 0)]

def hasty : List Call :=
  [.addTrustedHeader 5000 (above root 1), .addTrustedHeader 5000 root]

/-- Two headers whose work exceeds what can be counted. -/
def strenuous : List Call :=
  [.addTrustedHeader 5000 hard, .addTrustedHeader 5000 (above hard 1)]

def mixed : List Call :=
  [.addTrustedHeader 5000 root, .addHeader 5000 (above root 7), .addHeader 5000 (above root 1)]

/-- The root is stored alone; what is sent on top of it with a wrong height is refused, and what
is sent with the right one has another hash and work that can be counted. -/
theorem after_root :
    let stored := after [.addTrustedHeader 5000 root]
    stored.headers.toList = [(root.hash Vtorrent.Regtest.crypto, root)] ∧
    (stored.addHeader Vtorrent.Regtest.crypto 5000 (above root 7)).isOk = false ∧
    zeroHash ≠ (above root 1).hash Vtorrent.Regtest.crypto ∧
    root.hash Vtorrent.Regtest.crypto ≠ (above root 1).hash Vtorrent.Regtest.crypto ∧
    stored.workOf (above root 1).prevBlockHash + headerWork (above root 1).bits < 2 ^ 128 := by
  decide +kernel

theorem above_root_refused : ∀ after', (after [.addTrustedHeader 5000 root]).addHeader
    Vtorrent.Regtest.crypto 5000 (above root 7) ≠ .ok after' := by
  obtain ⟨-, refused, -⟩ := after_root
  intro after' accepted
  rw [accepted] at refused
  cases refused

theorem fits_above_root :
    Fits Vtorrent.Regtest.crypto (after [.addTrustedHeader 5000 root]) (above root 1) := by
  obtain ⟨alone, -, proper, apart, counted⟩ := after_root
  refine ⟨?_, apart, fun _ => ⟨by decide, counted⟩⟩
  intro hash child found
  have member : (hash, child) ∈ [(root.hash Vtorrent.Regtest.crypto, root)] := by
    rw [← alone]
    exact ExtTreeMap.mem_toList_iff_getElem?_eq_some.mpr found
  obtain ⟨rfl, rfl⟩ := Prod.mk.injEq _ _ _ _ ▸ List.mem_singleton.mp member
  exact proper

end Sample

/-- A run in which every new header that is accepted fits keeps the stored headers linked, and
every run follows a header of most work. -/
theorem linked_and_followsMost (crypto : Crypto) (calls : List Call) :
    (MeetAll (Fits crypto) crypto calls .new → (Chain.new.performAll crypto calls).Linked) ∧
      (Chain.new.performAll crypto calls).FollowsMost := by
  constructor
  · intro fitting
    refine @performAll_invariant crypto .new Chain.Linked (Fits crypto) ?_ calls ?_ fitting
    · intro chain after now trusted header linked fits added
      rcases addHeaderInner_eq_ok added with ⟨-, rfl⟩ | ⟨fresh, rfl, checked⟩
      · exact linked
      · exact (fits fresh).linked linked checked
    · intro hash header parent held
      simp [Chain.new] at held
  · refine @performAll_invariant crypto .new Chain.FollowsMost (fun _ _ => True) ?_ calls ?_
      (.of_forall (fun _ _ => trivial) calls .new)
    · intro chain after now trusted header follows _ added
      rcases addHeaderInner_eq_ok added with ⟨-, rfl⟩ | ⟨fresh, rfl, -⟩
      · exact follows
      · exact followsMost_store fresh follows
    · exact .inl ⟨fun hash => ExtTreeMap.not_mem_empty, rfl⟩

theorem linked_and_followsMost_of_mixed :
    (Sample.after Sample.mixed).headers.size = 2 ∧ (Sample.after Sample.mixed).Linked ∧
      (Sample.after Sample.mixed).FollowsMost := by
  obtain ⟨linked, follows⟩ := linked_and_followsMost Regtest.crypto Sample.mixed
  refine ⟨by decide +kernel, linked ?_, follows⟩
  have first : Call.perform Regtest.crypto .new (.addTrustedHeader 5000 Sample.root) =
      Sample.after [.addTrustedHeader 5000 Sample.root] := rfl
  have second : Call.perform Regtest.crypto (Sample.after [.addTrustedHeader 5000 Sample.root])
      (.addHeader 5000 (Sample.above Sample.root 7)) =
        Sample.after [.addTrustedHeader 5000 Sample.root] := by
    rw [Call.perform]
    cases answer : (Sample.after [.addTrustedHeader 5000 Sample.root]).addHeader Regtest.crypto
        5000 (Sample.above Sample.root 7) with
    | error error => rfl
    | ok after => exact absurd answer (Sample.above_root_refused after)
  have proper : zeroHash ≠ Sample.root.hash Regtest.crypto := by decide +kernel
  simp only [Sample.mixed, MeetAll, Call.Meets, first, second]
  refine ⟨fun _ _ _ => ⟨?_, proper, ?_⟩, fun after accepted => ?_,
    fun _ _ _ => Sample.fits_above_root, trivial⟩
  · intro hash child found
    simp [Chain.new] at found
  · intro member
    exact absurd member ExtTreeMap.not_mem_empty
  · exact absurd accepted (Sample.above_root_refused after)

/-- A header sent with height zero on top of a stored parent, one that was trusted before
its parent arrived, and one whose work cannot be counted do not link up. -/
theorem unlinked_headers :
    ¬ (Sample.after Sample.grounded).Linked ∧ ¬ (Sample.after Sample.hasty).Linked ∧
      ¬ (Sample.after Sample.strenuous).Linked :=
  ⟨@Sample.not_linked _ ((Sample.above Sample.root 0).hash Regtest.crypto) (by decide +kernel),
    @Sample.not_linked _ ((Sample.above Sample.root 1).hash Regtest.crypto) (by decide +kernel),
    @Sample.not_linked _ ((Sample.above Sample.hard 1).hash Regtest.crypto) (by decide +kernel)⟩

end Spv

end Vtorrent
