import Vtorrent.BtcHeaders
import Vtorrent.RootedPaths

/-!
# Stored headers and their paths

Every header that has been delivered has a path from genesis along parent hashes, which
pruning does not touch.  A header store is faithful to these paths, and so are the walks
that collect stored headers from a tip down.
-/

namespace Vtorrent

namespace Btc

open Std RootedPaths

def parentAmong (rules : HeaderRules) (delivered : List Header) (hash : Hash) : Option Hash :=
  if hash = rules.genesisHash then none
  else (delivered.find? fun header => rules.blockHash header = hash).map Header.prevBlockhash

structure Faithful (blockHash : Header → Hash) (root : Hash) (parent : Hash → Option Hash)
    (chain : HeaderChain) : Prop where
  keyed : ∀ hash stored, chain.headers[hash]? = some stored → blockHash stored.header = hash
  placed : ∀ hash stored, chain.headers[hash]? = some stored →
    ∃ path, Path root parent hash path ∧ path.length = stored.height + 1
  linked : ∀ hash stored, chain.headers[hash]? = some stored → hash ≠ root →
    parent hash = some stored.header.prevBlockhash
  rooted : root ∈ chain.headers
  tipped : ∃ tip stored, chain.bestHash = some tip ∧ chain.headers[tip]? = some stored ∧
    chain.bestHeight = stored.height ∧ chain.bestWork = stored.work

def StoredAbove (chain : HeaderChain) (path : List Hash) (hash : Hash) : Prop :=
  ∃ before after, path = before ++ hash :: after ∧ ∀ other ∈ after, other ∈ chain.headers

theorem storedAbove_concat {chain : HeaderChain} {path : List Hash} {node hash : Hash} :
    StoredAbove chain (path ++ [node]) hash ↔
      node = hash ∨ node ∈ chain.headers ∧ StoredAbove chain path hash := by
  constructor
  · rintro ⟨before, after, split, stored⟩
    rcases List.eq_nil_or_concat' after with rfl | ⟨after, last, rfl⟩
    · exact .inl (by simpa using (List.append_inj' split rfl).2)
    · rw [← List.cons_append, ← List.append_assoc] at split
      obtain ⟨front, back⟩ := List.append_inj' split rfl
      obtain rfl : node = last := by simpa using back
      exact .inr ⟨stored node (by simp), before, after, front,
        fun other member => stored other (by simp [member])⟩
  · rintro (rfl | ⟨held, before, after, rfl, stored⟩)
    · exact ⟨path, [], rfl, by simp⟩
    · refine ⟨before, after ++ [node], by simp, fun other member => ?_⟩
      rcases List.mem_append.mp member with old | last
      · exact stored other old
      · rwa [List.mem_singleton.mp last]

theorem storedAbove_singleton {chain : HeaderChain} {node hash : Hash} :
    StoredAbove chain [node] hash ↔ node = hash := by
  have whole := @storedAbove_concat chain [] node hash
  simpa [StoredAbove] using whole

theorem StoredAbove.mem {chain : HeaderChain} {path : List Hash} {hash : Hash}
    (above : StoredAbove chain path hash) : hash ∈ path := by
  obtain ⟨before, after, rfl, -⟩ := above
  simp

section Walks

variable {blockHash : Header → Hash} {root : Hash} {parent : Hash → Option Hash}
  {chain : HeaderChain} {path : List Hash} {node : Hash}

theorem getElem?_eq_some_of_mem {hash : Hash} (held : hash ∈ chain.headers) :
    ∃ stored, chain.headers[hash]? = some stored :=
  Option.isSome_iff_exists.mp (ExtTreeMap.mem_iff_isSome_getElem?.mp held)

theorem mem_of_getElem? {hash : Hash} {stored : StoredHeader}
    (held : chain.headers[hash]? = some stored) : hash ∈ chain.headers :=
  ExtTreeMap.mem_iff_isSome_getElem?.mpr (by simp [held])

variable (top : parent root = none)

include top

theorem Faithful.height (faithful : Faithful blockHash root parent chain)
    (whole : Path root parent node path) {stored : StoredHeader}
    (held : chain.headers[node]? = some stored) : path.length = stored.height + 1 := by
  obtain ⟨other, place, length⟩ := faithful.placed node stored held
  rw [whole.unique top place, length]

theorem length_le_of_mem {above : Hash} {before : List Hash}
    (whole : Path root parent node path) (later : Path root parent above before)
    (member : node ∈ before) : path.length ≤ before.length := by
  obtain ⟨front, back, rfl⟩ := List.append_of_mem member
  rw [whole.unique top later.of_append]
  simp

theorem Faithful.below (faithful : Faithful blockHash root parent chain) {above : Hash}
    (linked : parent node = some above) (earlier : Path root parent above path)
    {stored : StoredHeader} (held : chain.headers[node]? = some stored) :
    stored.height = path.length ∧ stored.height ≠ 0 ∧ stored.header.prevBlockhash = above := by
  have height := faithful.height top (.child linked earlier) held
  rw [List.length_append, List.length_singleton] at height
  have positive := List.length_pos_iff.mpr earlier.ne_nil
  have different : node ≠ root := by
    rintro rfl
    rw [top] at linked
    cases linked
  have prev := faithful.linked node stored held different
  rw [linked, Option.some_inj] at prev
  exact ⟨by omega, by omega, prev.symm⟩

theorem Faithful.lowest (faithful : Faithful blockHash root parent chain) :
    ∃ stored, chain.headers[root]? = some stored ∧ stored.height = 0 := by
  obtain ⟨stored, held⟩ := getElem?_eq_some_of_mem faithful.rooted
  exact ⟨stored, held, by simpa using (faithful.height top .root held).symm⟩

theorem lineage_of_lt (faithful : Faithful blockHash root parent chain)
    (whole : Path root parent node path) {startHeight steps : Nat}
    (low : path.length ≤ startHeight) : chain.lineage startHeight steps node = [] := by
  cases steps with
  | zero => rfl
  | succ steps =>
      rw [HeaderChain.lineage]
      cases held : chain.headers[node]? with
      | none => rfl
      | some stored =>
          have height := faithful.height top whole held
          exact if_pos (by omega)

theorem getLast?_lineage_iff (faithful : Faithful blockHash root parent chain)
    (whole : Path root parent node path) {cursor : Hash} {place : List Hash}
    (standing : Path root parent cursor place) {startHeight steps : Nat}
    (depth : place.length = startHeight + 1) (enough : path.length ≤ steps) :
    (chain.lineage startHeight steps node).getLast? = some cursor ↔
      cursor ∈ chain.headers ∧ StoredAbove chain path cursor := by
  induction whole generalizing steps with
  | root =>
      obtain ⟨steps, rfl⟩ := Nat.exists_eq_succ_of_ne_zero (Nat.ne_of_gt enough)
      obtain ⟨stored, held, height⟩ := faithful.lowest top
      rw [HeaderChain.lineage, storedAbove_singleton]
      simp only [held, height]
      split
      · rename_i higher
        simp only [List.getLast?_nil, false_iff, reduceCtorEq]
        rintro ⟨-, rfl⟩
        have single := congrArg List.length (standing.unique top .root)
        rw [List.length_singleton] at single
        omega
      · rw [if_pos trivial, List.getLast?_singleton, Option.some_inj]
        exact ⟨fun same => ⟨same ▸ faithful.rooted, same⟩, And.right⟩
  | @child node above path linked earlier ih =>
      rw [List.length_append, List.length_singleton] at enough
      obtain ⟨steps, rfl⟩ := Nat.exists_eq_succ_of_ne_zero (by omega : steps ≠ 0)
      have lower := ih (by omega : path.length ≤ steps)
      rw [HeaderChain.lineage, storedAbove_concat]
      cases held : chain.headers[node]? with
      | none =>
          have absent : node ∉ chain.headers := by
            simp [ExtTreeMap.mem_iff_isSome_getElem?, held]
          simp only [List.getLast?_nil, reduceCtorEq, absent, false_and, or_false, false_iff]
          rintro ⟨there, rfl⟩
          exact absent there
      | some entry =>
          obtain ⟨height, nonzero, prev⟩ := faithful.below top linked earlier held
          simp only [mem_of_getElem? held, true_and, prev, nonzero, if_false]
          by_cases same : node = cursor
          · subst same
            have level := congrArg List.length
              (standing.unique top (.child linked earlier))
            rw [List.length_append, List.length_singleton] at level
            rw [if_neg (by omega), lineage_of_lt top faithful earlier (by omega)]
            simp [mem_of_getElem? held]
          · simp only [same, false_or]
            split
            · rename_i low
              simp only [List.getLast?_nil, reduceCtorEq, false_iff]
              rintro ⟨-, met⟩
              have order := length_le_of_mem top standing earlier met.mem
              omega
            · rw [← lower]
              cases chain.lineage startHeight steps above with
              | nil => simpa using same
              | cons first rest => simp

variable {tip : Hash} {newPath : List Hash}

/-- The walk along the best chain has enough steps. -/
theorem Faithful.length_tip (faithful : Faithful blockHash root parent chain)
    (best : chain.bestHash = some tip) (newest : Path root parent tip newPath) :
    ∃ stored, chain.headers[tip]? = some stored ∧ stored.height = chain.bestHeight ∧
      newPath.length = chain.bestHeight + 1 := by
  obtain ⟨other, stored, bestHash, held, height, -⟩ := faithful.tipped
  rw [best, Option.some_inj] at bestHash
  subst bestHash
  exact ⟨stored, held, height.symm, by rw [faithful.height top newest held, height]⟩

theorem head?_hashesFrom_iff (faithful : Faithful blockHash root parent chain)
    (best : chain.bestHash = some tip) (newest : Path root parent tip newPath)
    (standing : Path root parent node path) {height : Nat} (depth : path.length = height + 1) :
    (chain.hashesFrom height).head? = some node ↔
      node ∈ chain.headers ∧ StoredAbove chain newPath node := by
  obtain ⟨stored, held, level, length⟩ := faithful.length_tip top best newest
  rw [HeaderChain.hashesFrom, List.head?_reverse, HeaderChain.bestLineage, best]
  exact getLast?_lineage_iff top faithful newest standing depth length.le

end Walks

/-! ## Stores stay faithful -/

/-- Different headers, genesis among them, have different hashes. -/
def NoCollision (rules : HeaderRules) (delivered : List Header) : Prop :=
  ∀ first ∈ rules.genesis :: delivered, ∀ second ∈ rules.genesis :: delivered,
    rules.blockHash first = rules.blockHash second → first = second

instance (rules : HeaderRules) (delivered : List Header) :
    Decidable (NoCollision rules delivered) :=
  inferInstanceAs (Decidable (∀ first ∈ rules.genesis :: delivered,
    ∀ second ∈ rules.genesis :: delivered, _ → _))

theorem parentAmong_genesis (rules : HeaderRules) (delivered : List Header) :
    parentAmong rules delivered rules.genesisHash = none :=
  if_pos rfl

theorem parentAmong_delivered {rules : HeaderRules} {delivered : List Header} {header : Header}
    (distinct : NoCollision rules delivered) (member : header ∈ delivered)
    (above : rules.blockHash header ≠ rules.genesisHash) :
    parentAmong rules delivered (rules.blockHash header) = some header.prevBlockhash := by
  rw [parentAmong, if_neg above]
  cases found : delivered.find? fun other => rules.blockHash other = rules.blockHash header with
  | none =>
      have absent := List.find?_eq_none.mp found header member
      simp at absent
  | some other =>
      have same : rules.blockHash other = rules.blockHash header := by
        simpa using List.find?_some found
      have equal := distinct other (List.mem_cons_of_mem _ (List.mem_of_find?_eq_some found))
        header (List.mem_cons_of_mem _ member) same
      rw [equal]
      rfl

section Preserved

variable {rules : HeaderRules} {delivered : List Header} {chain : HeaderChain}

abbrev FaithfulTo (rules : HeaderRules) (delivered : List Header) (chain : HeaderChain) : Prop :=
  Faithful rules.blockHash rules.genesisHash (parentAmong rules delivered) chain

theorem getElem?_anchored {hash : Hash} {stored : StoredHeader}
    (held : (HeaderChain.anchored rules).headers[hash]? = some stored) :
    hash = rules.genesisHash ∧ stored = ⟨rules.genesis, 0, headerWork rules.genesis.bits⟩ := by
  rw [HeaderChain.anchored, ExtTreeMap.getElem?_insert] at held
  split at held
  · rename_i same
    rw [Option.some_inj] at held
    exact ⟨(LawfulEqOrd.eq_of_compare same).symm, held.symm⟩
  · simp at held

theorem faithful_anchored (rules : HeaderRules) (delivered : List Header) :
    FaithfulTo rules delivered (.anchored rules) := by
  have first : (HeaderChain.anchored rules).headers[rules.genesisHash]? =
      some ⟨rules.genesis, 0, headerWork rules.genesis.bits⟩ :=
    ExtTreeMap.getElem?_insert_self
  refine ⟨?_, ?_, ?_, mem_of_getElem? first, rules.genesisHash, _, rfl, first, rfl,
    rfl⟩
  · intro hash stored held
    obtain ⟨rfl, rfl⟩ := getElem?_anchored held
    rfl
  · intro hash stored held
    obtain ⟨rfl, rfl⟩ := getElem?_anchored held
    exact ⟨_, .root, rfl⟩
  · intro hash stored held above
    exact absurd (getElem?_anchored held).1 above

theorem Faithful.retain {blockHash : Header → Hash} {root : Hash}
    {parent : Hash → Option Hash} (faithful : Faithful blockHash root parent chain)
    (keep : Hash → StoredHeader → Bool)
    (keepRoot : ∀ stored, chain.headers[root]? = some stored → keep root stored = true)
    (keepTip : ∀ tip stored, chain.bestHash = some tip → chain.headers[tip]? = some stored →
      keep tip stored = true) :
    Faithful blockHash root parent { chain with headers := chain.headers.filter keep } := by
  have earlier : ∀ (hash : Hash) stored, (chain.headers.filter keep)[hash]? = some stored →
      chain.headers[hash]? = some stored := by
    intro hash stored held
    rw [FiniteMap.getElem?_filter, Option.filter_eq_some_iff] at held
    exact held.1
  have kept : ∀ (hash : Hash) stored, chain.headers[hash]? = some stored → keep hash stored = true →
      (chain.headers.filter keep)[hash]? = some stored := by
    intro hash stored held keeps
    rw [FiniteMap.getElem?_filter, Option.filter_eq_some_iff]
    exact ⟨held, keeps⟩
  obtain ⟨tip, stored, best, held, facts⟩ := faithful.tipped
  obtain ⟨lowest, there⟩ := getElem?_eq_some_of_mem faithful.rooted
  exact {
    keyed := fun hash stored held => faithful.keyed hash stored (earlier hash stored held)
    placed := fun hash stored held => faithful.placed hash stored (earlier hash stored held)
    linked := fun hash stored held => faithful.linked hash stored (earlier hash stored held)
    rooted := ExtTreeMap.mem_iff_isSome_getElem?.mpr
      (by simp [kept root lowest there (keepRoot lowest there)])
    tipped := ⟨tip, stored, best, kept tip stored held (keepTip tip stored best held), facts⟩ }

theorem Faithful.find_genesis (faithful : FaithfulTo rules delivered chain) :
    ((FiniteMap.values chain.headers).find? fun stored => stored.height = 0).map
      (fun stored => rules.blockHash stored.header) = some rules.genesisHash := by
  have top := parentAmong_genesis rules delivered
  obtain ⟨lowest, held, height⟩ := faithful.lowest top
  have member : lowest ∈ FiniteMap.values chain.headers := FiniteMap.mem_values.mpr ⟨_, held⟩
  cases found : (FiniteMap.values chain.headers).find? fun stored => stored.height = 0 with
  | none =>
      have absent := List.find?_eq_none.mp found lowest member
      simp [height] at absent
  | some stored =>
      have zero : stored.height = 0 := by simpa using List.find?_some found
      obtain ⟨hash, there⟩ := FiniteMap.mem_values.mp (List.mem_of_find?_eq_some found)
      obtain ⟨path, whole, length⟩ := faithful.placed hash stored there
      rw [zero] at length
      obtain ⟨only, rfl⟩ := List.length_eq_one_iff.mp length
      have last := whole.getLast?
      have first := whole.head?
      simp only [List.getLast?_singleton, List.head?_cons, Option.some_inj] at last first
      rw [Option.map_some, faithful.keyed hash stored there, ← last, first]

theorem Faithful.tip_mem_bestLineage {blockHash : Header → Hash} {root : Hash}
    {parent : Hash → Option Hash} (faithful : Faithful blockHash root parent chain)
    {startHeight : Nat} (within : startHeight ≤ chain.bestHeight) {tip : Hash}
    (best : chain.bestHash = some tip) : tip ∈ chain.bestLineage startHeight := by
  obtain ⟨other, stored, bestHash, held, height, -⟩ := faithful.tipped
  rw [best, Option.some_inj] at bestHash
  subst bestHash
  have inside : ¬ stored.height < startHeight := by omega
  simp only [HeaderChain.bestLineage, best, HeaderChain.steps, HeaderChain.lineage, held, inside,
    if_false]
  split <;> simp

theorem Faithful.pruneForce (faithful : FaithfulTo rules delivered chain) :
    FaithfulTo rules delivered (chain.pruneForce rules) := by
  unfold HeaderChain.pruneForce
  split
  · exact faithful
  · dsimp only
    rw [faithful.find_genesis]
    apply faithful.retain
    · intro stored _
      simp
    · intro tip stored best _
      have kept := faithful.tip_mem_bestLineage
        (Nat.sub_le chain.bestHeight chain.retention) best
      simp [kept]

theorem Faithful.prune (faithful : FaithfulTo rules delivered chain) :
    FaithfulTo rules delivered (chain.prune rules) := by
  unfold HeaderChain.prune
  split
  · exact faithful
  · split
    · exact faithful
    · exact faithful.pruneForce

theorem Faithful.setRetention (faithful : FaithfulTo rules delivered chain) (retention : Nat) :
    FaithfulTo rules delivered (chain.setRetention rules retention) :=
  Faithful.pruneForce
    ⟨faithful.keyed, faithful.placed, faithful.linked, faithful.rooted, faithful.tipped⟩

theorem addHeader_eq_ok {header : Header} {height : Nat} {after : HeaderChain}
    (added : chain.addHeader rules header height = .ok after) :
    rules.blockHash header ∈ chain.headers ∧ after = chain ∨
      rules.blockHash header ∉ chain.headers ∧
        ∃ parent, chain.headers[header.prevBlockhash]? = some parent ∧ height = parent.height + 1 ∧
        after = (chain.store (rules.blockHash header)
          (HeaderChain.onTop header height parent.work)).prune rules := by
  unfold HeaderChain.addHeader at added
  dsimp only at added
  split at added
  · rename_i known
    exact .inl ⟨known, (Checked.pure_eq_ok.mp added).symm⟩
  · rename_i fresh
    simp only [Checked.bind_eq_ok, Checked.rejectIf_eq_ok, Checked.pure_eq_ok] at added
    obtain ⟨-, -, -, -, -, -, parent, found, expected, -, -, -, -, heights, rfl⟩ := added
    refine .inr ⟨fresh, parent, ?_, by simpa using heights, rfl⟩
    unfold HeaderChain.parentOf at found
    split at found
    · cases found
    · rename_i held
      cases found
      exact held

theorem headers_store (hash : Hash) (stored : StoredHeader) (chain : HeaderChain) :
    (chain.store hash stored).headers = chain.headers.insert hash stored := by
  unfold HeaderChain.store
  split <;> rfl

theorem getElem?_store {hash other : Hash} {stored entry : StoredHeader}
    (held : (chain.store hash stored).headers[other]? = some entry) :
    other = hash ∧ entry = stored ∨ chain.headers[other]? = some entry := by
  rw [headers_store, ExtTreeMap.getElem?_insert] at held
  split at held
  · rename_i same
    exact .inl ⟨(LawfulEqOrd.eq_of_compare same).symm, (Option.some_inj.mp held).symm⟩
  · exact .inr held

theorem Faithful.store (faithful : FaithfulTo rules delivered chain)
    (distinct : NoCollision rules delivered) {header : Header} (member : header ∈ delivered)
    (fresh : rules.blockHash header ∉ chain.headers) {parent : StoredHeader}
    (below : chain.headers[header.prevBlockhash]? = some parent) :
    FaithfulTo rules delivered (chain.store (rules.blockHash header)
      (HeaderChain.onTop header (parent.height + 1) parent.work)) := by
  have above : rules.blockHash header ≠ rules.genesisHash := by
    intro same
    rw [same] at fresh
    exact fresh faithful.rooted
  have linked := parentAmong_delivered distinct member above
  obtain ⟨path, place, length⟩ := faithful.placed _ parent below
  refine ⟨?_, ?_, ?_, ?_, ?_⟩
  · intro hash entry held
    rcases getElem?_store held with ⟨rfl, rfl⟩ | old
    · rfl
    · exact faithful.keyed hash entry old
  · intro hash entry held
    rcases getElem?_store held with ⟨rfl, rfl⟩ | old
    · exact ⟨_, .child linked place, by simp [length, HeaderChain.onTop]⟩
    · exact faithful.placed hash entry old
  · intro hash entry held
    rcases getElem?_store held with ⟨rfl, rfl⟩ | old
    · exact fun _ => linked
    · exact faithful.linked hash entry old
  · rw [headers_store]
    exact ExtTreeMap.mem_insert.mpr (.inr faithful.rooted)
  · unfold HeaderChain.store
    split
    · exact ⟨_, _, rfl, ExtTreeMap.getElem?_insert_self, rfl, rfl⟩
    · obtain ⟨tip, entry, best, held, facts⟩ := faithful.tipped
      refine ⟨tip, entry, best, ?_, facts⟩
      have other : tip ≠ rules.blockHash header := by
        rintro rfl
        exact fresh (mem_of_getElem? held)
      exact (FiniteMap.getElem?_insert_of_ne other).trans held

theorem Faithful.addHeader (faithful : FaithfulTo rules delivered chain)
    (distinct : NoCollision rules delivered) {header : Header} (member : header ∈ delivered)
    {height : Nat} {after : HeaderChain}
    (added : chain.addHeader rules header height = .ok after) :
    FaithfulTo rules delivered after := by
  rcases addHeader_eq_ok added with ⟨-, rfl⟩ | ⟨fresh, parent, below, rfl, rfl⟩
  · exact faithful
  · exact (faithful.store distinct member fresh below).prune

theorem Faithful.perform (faithful : FaithfulTo rules delivered chain)
    (distinct : NoCollision rules delivered) (call : HeaderCall)
    (members : ∀ header ∈ call.delivered, header ∈ delivered) :
    FaithfulTo rules delivered (call.perform rules chain) := by
  cases call with
  | addHeader header height =>
      unfold HeaderCall.perform
      dsimp only
      split
      · rename_i added
        exact faithful.addHeader distinct (members header (by simp [HeaderCall.delivered])) added
      · exact faithful
  | setRetention retention => exact faithful.setRetention retention

theorem Faithful.performAll (faithful : FaithfulTo rules delivered chain)
    (distinct : NoCollision rules delivered) {calls : List HeaderCall}
    (members : ∀ header ∈ calls.flatMap HeaderCall.delivered, header ∈ delivered) :
    FaithfulTo rules delivered (chain.performAll rules calls) := by
  induction calls generalizing chain with
  | nil => exact faithful
  | cons call calls ih =>
      rw [List.flatMap_cons] at members
      exact ih (faithful.perform distinct call fun header member =>
          members header (List.mem_append_left _ member))
        fun header member => members header (List.mem_append_right _ member)

theorem Faithful.path_tip {blockHash : Header → Hash} {root : Hash}
    {parent : Hash → Option Hash} (faithful : Faithful blockHash root parent chain) :
    ∃ tip path, chain.bestHash = some tip ∧ Path root parent tip path := by
  obtain ⟨tip, stored, best, held, -⟩ := faithful.tipped
  obtain ⟨path, whole, -⟩ := faithful.placed tip stored held
  exact ⟨tip, path, best, whole⟩

end Preserved

/-! ## A small network -/

namespace HeaderSample

def label (number : Nat) : Hash :=
  ⟨UInt8.ofNat (number / 256) :: UInt8.ofNat number :: List.replicate 30 0, rfl⟩

def easyBits : UInt32 := 0x22000001

def hardBits : UInt32 := 0x21000001

/-- A header with a number on top of another; the next one is hard if it is marked. -/
def header (number previous : Nat) (bits : UInt32) (mark : UInt32) : Header where
  version := 1
  prevBlockhash := label previous
  merkleRoot := label number
  time := 0
  bits := bits
  nonce := mark

/-- A network that retargets at each block: a header that follows a marked one is hard. -/
def rules : HeaderRules where
  blockHash := Header.merkleRoot
  validatePow := fun _ => .ok ()
  target := fun _ => 0
  toCompactLossy := fun _ => easyBits
  difficultyAdjustment := fun _ parent => if parent.nonce = 1 then hardBits else easyBits
  genesis := header 0 0 easyBits 0
  maxAttainableTarget := 0
  powTargetTimespan := 1
  powTargetSpacing := 1
  allowMinDifficultyBlocks := false

end HeaderSample

end Btc

end Vtorrent
