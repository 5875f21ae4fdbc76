import Vtorrent.HeaderLineages

/-!
# Block locators

A locator names headers of the best chain from the tip down in growing steps, so that a
peer finds the last header both know.  The walk stops at the first header that has been
pruned, and then the locator ends with the hash of that header and not with genesis.
-/

namespace Vtorrent

namespace Btc

open Std RootedPaths

/-- A locator names stored headers of a path, from the tip at strictly decreasing heights
down to genesis. -/
structure Locates (rules : HeaderRules) (chain : HeaderChain) (path locator : List Hash) :
    Prop where
  first : locator.head? = chain.bestHash
  stored : ∀ hash ∈ locator, hash ∈ chain.headers
  ancestors : ∀ hash ∈ locator, hash ∈ path
  decreasing : locator.Pairwise fun above below => ∃ high low,
    chain.headers[above]? = some high ∧ chain.headers[below]? = some low ∧
      low.height < high.height
  last : locator.getLast? = some rules.genesisHash

section Locator

variable {blockHash : Header → Hash} {root : Hash} {parent : Hash → Option Hash}
  {chain : HeaderChain} {path : List Hash} {node : Hash}
  (top : parent root = none) (faithful : Faithful blockHash root parent chain)

include top faithful

/-- Walking down ends at a missing header or at a height of at most the target, over stored
headers only. -/
theorem descend_cases (whole : Path root parent node path) (target : Nat) {steps : Nat}
    (enough : path.length ≤ steps) :
    ∃ before cursor after, path = before ++ cursor :: after ∧
      chain.descend target steps node = cursor ∧ (∀ hash ∈ after, hash ∈ chain.headers) ∧
      (cursor ∈ chain.headers → before.length ≤ target) := by
  induction whole generalizing steps with
  | root =>
      obtain ⟨steps, rfl⟩ := Nat.exists_eq_succ_of_ne_zero (Nat.ne_of_gt enough)
      obtain ⟨stored, held, height⟩ := faithful.lowest top
      refine ⟨[], root, [], rfl, ?_, by simp, by simp⟩
      simp [HeaderChain.descend, held, height]
  | @child node above path linked earlier ih =>
      rw [List.length_append, List.length_singleton] at enough
      obtain ⟨steps, rfl⟩ := Nat.exists_eq_succ_of_ne_zero (by omega : steps ≠ 0)
      rw [HeaderChain.descend]
      cases held : chain.headers[node]? with
      | none =>
          refine ⟨path, node, [], rfl, rfl, by simp, fun there => ?_⟩
          rw [ExtTreeMap.mem_iff_isSome_getElem?, held] at there
          cases there
      | some stored =>
          obtain ⟨height, nonzero, prev⟩ := faithful.below top linked earlier held
          dsimp only
          split
          · rename_i reached
            exact ⟨path, node, [], rfl, rfl, by simp, fun _ => by omega⟩
          · obtain ⟨before, cursor, after, rfl, ends, stored, low⟩ :=
              ih (by omega : path.length ≤ steps)
            refine ⟨before, cursor, after ++ [node], by simp, by rw [prev, ends], ?_, low⟩
            intro hash member
            rcases List.mem_append.mp member with old | last
            · exact stored hash old
            · rw [List.mem_singleton.mp last]
              exact mem_of_getElem? held

theorem descend_below (whole : Path root parent node path) {stored : StoredHeader}
    (held : chain.headers[node]? = some stored) (nonzero : stored.height ≠ 0) {step : Nat}
    (forward : 1 ≤ step) :
    ∃ before cursor after, path = before ++ cursor :: after ∧
      chain.descend (stored.height - step) (stored.height + 1) node = cursor ∧
      (∀ hash ∈ after, hash ∈ chain.headers) ∧ after ≠ [] := by
  have height := faithful.height top whole held
  obtain ⟨before, cursor, after, rfl, ends, others, low⟩ :=
    descend_cases top faithful whole (stored.height - step) height.le
  refine ⟨before, cursor, after, rfl, ends, others, ?_⟩
  rintro rfl
  have last := whole.getLast?
  rw [List.getLast?_concat, Option.some_inj] at last
  subst last
  have within := low (mem_of_getElem? held)
  rw [List.length_append, List.length_singleton] at height
  omega

/-- The locator from a header names headers of its path at decreasing places, and ends with
the root if the whole path is stored and with a missing header otherwise. -/
theorem locatorFrom_cases {rounds step : Nat} (length : Nat) (forward : 1 ≤ step)
    (whole : Path root parent node path) (enough : path.length ≤ rounds) :
    (chain.locatorFrom rounds step length node).head? = some node ∧
      (∀ hash ∈ chain.locatorFrom rounds step length node, hash ∈ path) ∧
      ((chain.locatorFrom rounds step length node).Pairwise fun above below =>
        ∃ high low, Path root parent above high ∧ Path root parent below low ∧
          low.length < high.length) ∧
      ((chain.locatorFrom rounds step length node).getLast? = some root ∧
          (∀ hash ∈ path, hash ∈ chain.headers) ∨
        ∃ last, (chain.locatorFrom rounds step length node).getLast? = some last ∧
          last ∉ chain.headers) := by
  induction rounds generalizing node path step length with
  | zero =>
      have positive := List.length_pos_iff.mpr whole.ne_nil
      omega
  | succ rounds ih =>
      have ends := List.mem_of_getLast? whole.getLast?
      rw [HeaderChain.locatorFrom]
      cases held : chain.headers[node]? with
      | none =>
          refine ⟨rfl, by simpa using ends, List.pairwise_singleton _ _, .inr ⟨node, rfl, ?_⟩⟩
          intro there
          rw [ExtTreeMap.mem_iff_isSome_getElem?, held] at there
          cases there
      | some current =>
          dsimp only
          have height := faithful.height top whole held
          by_cases bottom : current.height = 0
          · rw [if_pos bottom]
            rw [bottom] at height
            obtain ⟨only, rfl⟩ := List.length_eq_one_iff.mp height
            have first := whole.head?
            have last := whole.getLast?
            simp only [List.head?_cons, List.getLast?_singleton, Option.some_inj] at first last
            subst first
            subst last
            exact ⟨rfl, by simp, List.pairwise_singleton _ _,
              .inl ⟨rfl, by simpa using mem_of_getElem? held⟩⟩
          · rw [if_neg bottom]
            obtain ⟨before, cursor, after, rfl, reached, stored, moved⟩ :=
              descend_below top faithful whole held bottom forward
            rw [reached]
            have lower := whole.of_append
            have shorter : (before ++ [cursor]).length < (before ++ cursor :: after).length := by
              have positive := List.length_pos_iff.mpr moved
              simp only [List.length_append, List.length_cons, List.length_nil]
              omega
            have further : 1 ≤
                if length + 1 > 10 then min (step * 2) (2 ^ 32 - 1) else step := by
              split <;> omega
            obtain ⟨head, members, decreasing, stops⟩ :=
              ih (length + 1) further lower (by omega)
            set rest := chain.locatorFrom rounds
              (if length + 1 > 10 then min (step * 2) (2 ^ 32 - 1) else step) (length + 1) cursor
            have nonempty : rest ≠ [] := by
              rintro none
              rw [none] at head
              cases head
            refine ⟨rfl, ?_, ?_, ?_⟩
            · intro hash member
              rcases List.mem_cons.mp member with rfl | old
              · exact ends
              · have place := members hash old
                simp only [List.mem_append, List.mem_cons, List.not_mem_nil, or_false] at place ⊢
                tauto
            · refine List.pairwise_cons.mpr ⟨fun hash member => ?_, decreasing⟩
              obtain ⟨front, back, split⟩ := List.append_of_mem (members hash member)
              rw [split] at lower shorter
              refine ⟨_, _, whole, lower.of_append, Nat.lt_of_le_of_lt ?_ shorter⟩
              simp
            · rw [List.getLast?_cons_of_ne_nil nonempty]
              rcases stops with ⟨last, below⟩ | missing
              · refine .inl ⟨last, fun hash member => ?_⟩
                rw [List.append_cons, List.mem_append] at member
                rcases member with old | above
                · exact below hash old
                · exact stored hash above
              · exact .inr missing

theorem locates_iff {rules : HeaderRules} (genesis : root = rules.genesisHash) {tip : Hash}
    (best : chain.bestHash = some tip) (newest : Path root parent tip path) :
    Locates rules chain path chain.blockLocator ↔ ∀ hash ∈ path, hash ∈ chain.headers := by
  obtain ⟨-, -, -, length⟩ := faithful.length_tip top best newest
  have enough : path.length ≤ chain.steps := length.le
  have locator : chain.blockLocator = chain.locatorFrom chain.steps 1 0 tip := by
    rw [HeaderChain.blockLocator, best]
  obtain ⟨first, members, decreasing, stops⟩ :=
    locatorFrom_cases top faithful 0 le_rfl newest enough
  rw [locator]
  constructor
  · intro locates
    rcases stops with ⟨-, whole⟩ | ⟨last, ends, missing⟩
    · exact whole
    · exact absurd (locates.stored last (List.mem_of_getLast? ends)) missing
  · intro whole
    refine ⟨first.trans best.symm, fun hash member => whole hash (members hash member), members,
      ?_, ?_⟩
    · refine decreasing.imp_of_mem ?_
      rintro above below aboveMem belowMem ⟨high, low, highPath, lowPath, order⟩
      obtain ⟨highStored, highHeld⟩ := getElem?_eq_some_of_mem (whole _ (members _ aboveMem))
      obtain ⟨lowStored, lowHeld⟩ := getElem?_eq_some_of_mem (whole _ (members _ belowMem))
      have highHeight := faithful.height top highPath highHeld
      have lowHeight := faithful.height top lowPath lowHeld
      exact ⟨highStored, lowStored, highHeld, lowHeld, by omega⟩
    · rcases stops with ⟨last, -⟩ | ⟨last, ends, missing⟩
      · rw [last, genesis]
      · exact absurd (whole _ (members _ (List.mem_of_getLast? ends))) missing

end Locator

/-- After any calls on an anchored chain, the locator names stored ancestors of the tip down
to genesis if and only if no header of the best chain has been pruned. -/
theorem blockLocator_iff (rules : HeaderRules) (calls : List HeaderCall)
    (distinct : NoCollision rules (calls.flatMap HeaderCall.delivered)) :
    let chain := (HeaderChain.anchored rules).performAll rules calls
    ∃ tip path, chain.bestHash = some tip ∧
      Path rules.genesisHash (parentAmong rules (calls.flatMap HeaderCall.delivered)) tip path ∧
      (Locates rules chain path chain.blockLocator ↔ ∀ hash ∈ path, hash ∈ chain.headers) := by
  intro chain
  have faithful : FaithfulTo rules (calls.flatMap HeaderCall.delivered) chain :=
    (faithful_anchored rules _).performAll distinct fun header member => member
  obtain ⟨tip, path, best, newest⟩ := faithful.path_tip
  exact ⟨tip, path, best, newest,
    locates_iff (parentAmong_genesis rules _) faithful rfl best newest⟩

namespace HeaderSample

/-- Five headers on top of each other, of which three are kept. -/
def windowed : List HeaderCall :=
  ([1, 2, 3, 4, 5].map fun number =>
    .addHeader (header number (number - 1) easyBits 0) (UInt32.ofNat number)) ++ [.setRetention 2]

def windowedChain : HeaderChain := (HeaderChain.anchored rules).performAll rules windowed

theorem windowedChain_locator :
    NoCollision rules (windowed.flatMap HeaderCall.delivered) ∧
      windowedChain.blockLocator = [5, 4, 3, 2].map label ∧
      windowedChain.headers.contains (label 2) = false := by
  decide +kernel

end HeaderSample

open HeaderSample in
theorem blockLocator_of_window :
    ∃ tip path, windowedChain.bestHash = some tip ∧
      Path rules.genesisHash (parentAmong rules (windowed.flatMap HeaderCall.delivered)) tip path ∧
      (Locates rules windowedChain path windowedChain.blockLocator ↔
        ∀ hash ∈ path, hash ∈ windowedChain.headers) :=
  blockLocator_iff rules windowed windowedChain_locator.1

open HeaderSample in
/-- With three of five headers kept, the locator ends with a header that is gone. -/
theorem locator_ends_with_pruned :
    windowedChain.blockLocator.getLast? = some (label 2) ∧ label 2 ∉ windowedChain.headers ∧
      label 2 ≠ rules.genesisHash := by
  obtain ⟨-, locator, absent⟩ := windowedChain_locator
  refine ⟨by rw [locator]; rfl, ?_, by decide⟩
  rw [← ExtTreeMap.contains_iff_mem, absent]
  exact Bool.false_ne_true

end Btc

end Vtorrent
