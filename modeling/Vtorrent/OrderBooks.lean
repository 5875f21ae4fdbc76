import Vtorrent.IndexedTrims
import Vtorrent.SwapStates

/-!
# The order book under pressure

When the book is full, adding an order first evicts cancelled and expired orders and then
trims open ones.  Orders that are being funded or are further along stay, even if the book
then holds more orders than its limit.
-/

namespace Vtorrent

def OrderStatus.isUnderway : OrderStatus → Bool
  | .funding | .matched | .inProgress | .completed => true
  | .open | .cancelled => false

theorem OrderStatus.isUnderway_iff {status : OrderStatus} :
    status.isUnderway = true ↔ status ≠ .open ∧ status ≠ .cancelled := by
  cases status <;> simp [isUnderway]

namespace SwapOrderBook

def modifyFirst (found : SwapOrder → Bool) (change : SwapOrder → SwapOrder) :
    SwapOrderBook → SwapOrderBook
  | [] => []
  | order :: orders =>
      if found order then change order :: orders else order :: modifyFirst found change orders

/-- `cancel_order`. -/
def cancelOrder (id : String) (book : SwapOrderBook) : Bool × SwapOrderBook :=
  let found := fun order : SwapOrder => order.key == id && order.status == .open
  (book.any found, modifyFirst found (fun order => { order with status := .cancelled }) book)

/-- `expire_orders`. -/
def expireOrders (now : UInt32) (book : SwapOrderBook) : Nat × SwapOrderBook :=
  let expired := fun order : SwapOrder => order.status == .open && decide (now ≥ order.expiry)
  (book.countP expired,
    book.map fun order => if expired order then { order with status := .cancelled } else order)

/-- `begin_funding`. -/
def beginFunding (id : String) (book : SwapOrderBook) : Option SwapOrder × SwapOrderBook :=
  let found := fun order : SwapOrder => order.key == id && order.status == .open
  let reserve := fun order : SwapOrder => { order with status := .funding }
  ((book.find? found).map reserve, modifyFirst found reserve book)

/-- `release_funding`. -/
def releaseFunding (id : String) (book : SwapOrderBook) : Bool × SwapOrderBook :=
  match book.getOrder id with
  | none => (false, book)
  | some order =>
      if order.status != .funding then (false, book)
      else
        (true, modifyFirst (fun order => order.key == id)
          (fun order => { order with status := .open }) book)

end SwapOrderBook

/-- A call on the order book, with the clock where it reads it. -/
inductive BookCall where
  | addOrder (now : UInt32) (order : SwapOrder)
  | cancelOrder (id : String)
  | expireOrders (now : UInt32)
  | beginFunding (id : String)
  | releaseFunding (id : String)

namespace BookCall

def perform (book : SwapOrderBook) : BookCall → SwapOrderBook
  | .addOrder now order => book.addOrder now order
  | .cancelOrder id => (book.cancelOrder id).2
  | .expireOrders now => (book.expireOrders now).2
  | .beginFunding id => (book.beginFunding id).2
  | .releaseFunding id => (book.releaseFunding id).2

def releases (order : SwapOrder) : BookCall → Bool
  | .releaseFunding id => order.key == id
  | _ => false

end BookCall

namespace SwapOrderBook

def performAll (calls : List BookCall) (book : SwapOrderBook) : SwapOrderBook :=
  calls.foldl BookCall.perform book

section Steps

variable {book : SwapOrderBook}

theorem modifyFirst_cases (found : SwapOrder → Bool) (change : SwapOrder → SwapOrder)
    (book : SwapOrderBook) :
    (∀ order ∈ book, found order = false) ∧ modifyFirst found change book = book ∨
      ∃ before order after, book = before ++ order :: after ∧
        (∀ other ∈ before, found other = false) ∧ found order = true ∧
        modifyFirst found change book = before ++ change order :: after := by
  induction book with
  | nil => exact .inl ⟨by simp, rfl⟩
  | cons first orders ih =>
      rw [modifyFirst]
      cases here : found first with
      | true => exact .inr ⟨[], first, orders, rfl, by simp, here, rfl⟩
      | false =>
          rcases ih with ⟨none, same⟩ | ⟨before, order, after, rfl, earlier, hit, changed⟩
          · refine .inl ⟨?_, by rw [same]; rfl⟩
            simpa [here] using none
          · refine .inr ⟨first :: before, order, after, rfl, ?_, hit, ?_⟩
            · simpa [here] using earlier
            · rw [changed]
              rfl

theorem modifyFirst_append {found : SwapOrder → Bool} {before : SwapOrderBook}
    (change : SwapOrder → SwapOrder) (after : SwapOrderBook)
    (absent : ∀ order ∈ before, found order = false) :
    modifyFirst found change (before ++ after) = before ++ modifyFirst found change after := by
  induction before with
  | nil => rfl
  | cons order orders ih =>
      rw [List.cons_append, modifyFirst, absent order (by simp),
        ih fun other member => absent other (by simp [member])]
      rfl

theorem filter_sublist_modifyFirst {found keep : SwapOrder → Bool}
    (change : SwapOrder → SwapOrder)
    (apart : ∀ order ∈ book, found order = true → keep order = false) :
    (book.filter keep).Sublist (modifyFirst found change book) := by
  rcases modifyFirst_cases found change book with
    ⟨-, same⟩ | ⟨before, order, after, rfl, -, hit, changed⟩
  · rw [same]
    exact List.filter_sublist
  · rw [changed, List.filter_append,
      List.filter_cons_of_neg (by simp [apart order (by simp) hit])]
    exact List.filter_sublist.append (List.filter_sublist.cons _)

theorem chosen_spec (kept : SwapOrderBook) (excess : Nat) :
    let chosen := ((kept.zipIdx.filter fun entry => entry.1.status == .open).mergeSort
      fun first second => decide (first.1.expiry ≤ second.1.expiry)).take excess
    chosen ⊆ kept.zipIdx ∧ (∀ entry ∈ chosen, (entry.1.status == .open) = true) ∧
      chosen.Nodup ∧
      (chosen.length < excess → ∀ entry ∈ kept.zipIdx, (entry.1.status == .open) = true →
        entry ∈ chosen) := by
  intro chosen
  have sorted := List.mergeSort_perm (kept.zipIdx.filter fun entry => entry.1.status == .open)
    fun first second => decide (first.1.expiry ≤ second.1.expiry)
  have origin : ∀ entry ∈ chosen,
      entry ∈ kept.zipIdx.filter fun entry => entry.1.status == .open :=
    fun entry member => sorted.mem_iff.mp (List.mem_of_mem_take member)
  have nodup : kept.zipIdx.Nodup := by
    apply List.Nodup.of_map Prod.snd
    rw [List.zipIdx_map_snd]
    exact List.nodup_range'
  refine ⟨fun entry member => (List.mem_filter.mp (origin entry member)).1,
    fun entry member => (List.mem_filter.mp (origin entry member)).2,
    (sorted.nodup_iff.mpr (nodup.filter _)).sublist (List.take_sublist _ _), ?_⟩
  intro few entry member opened
  have whole : chosen = (kept.zipIdx.filter fun entry => entry.1.status == .open).mergeSort
      fun first second => decide (first.1.expiry ≤ second.1.expiry) := by
    apply List.take_of_length_le
    rw [List.length_take] at few
    omega
  rw [whole, sorted.mem_iff]
  exact List.mem_filter.mpr ⟨member, opened⟩

/-- Eviction only drops orders, keeps those that are underway, and leaves less than the limit
unless all that is left is underway. -/
theorem evict_spec (book : SwapOrderBook) (now : UInt32) :
    (evict book now).Sublist book ∧
      (book.filter fun order => order.status.isUnderway).Sublist (evict book now) ∧
      ((evict book now).length < maxOrders ∨
        ∀ order ∈ evict book now, order.status.isUnderway = true) := by
  unfold evict
  dsimp only
  set kept := book.filter fun order =>
    order.status != .cancelled && (decide (now < order.expiry) || order.status != .open)
    with kept_eq
  have keptSublist : kept.Sublist book := List.filter_sublist
  have underway : (book.filter fun order => order.status.isUnderway) =
      kept.filter fun order => order.status.isUnderway := by
    rw [kept_eq, List.filter_filter]
    refine List.filter_congr fun order _ => ?_
    cases order.status <;> simp [OrderStatus.isUnderway]
  have notCancelled : ∀ order ∈ kept, order.status ≠ .cancelled := by
    intro order member
    simp only [kept_eq, List.mem_filter, Bool.and_eq_true, bne_iff_ne] at member
    exact member.2.1
  split
  · rename_i few
    exact ⟨keptSublist, underway ▸ List.filter_sublist, .inl few⟩
  · rename_i full
    obtain ⟨subset, opened, distinct, all⟩ := chosen_spec kept (kept.length - maxOrders * 3 / 4)
    change (IndexedTrims.trim kept _).Sublist book ∧ _ ∧
      ((IndexedTrims.trim kept _).length < maxOrders ∨ ∀ order ∈ IndexedTrims.trim kept _, _)
    refine ⟨(IndexedTrims.trim_sublist _ _).trans keptSublist, ?_, ?_⟩
    · rw [underway]
      refine List.Sublist.trans ?_ (IndexedTrims.filter_sublist_trim
        (p := fun order => order.status == .open) subset opened)
      apply List.monotone_filter_right
      intro order
      cases order.status <;> simp [OrderStatus.isUnderway]
    · have length := IndexedTrims.length_trim subset distinct
      rcases lt_or_ge (List.length _) (kept.length - maxOrders * 3 / 4) with few | many
      · right
        rw [IndexedTrims.trim_eq_filter (p := fun order => order.status == .open) subset opened
          (all few)]
        intro order member
        obtain ⟨there, closed⟩ := List.mem_filter.mp member
        exact OrderStatus.isUnderway_iff.mpr
          ⟨by simpa using closed, notCancelled order there⟩
      · left
        simp only [maxOrders] at full length many ⊢
        omega

theorem evict_eq_self (now : UInt32) (all : ∀ order ∈ book, order.status.isUnderway = true) :
    evict book now = book := by
  obtain ⟨sublist, kept, -⟩ := evict_spec book now
  rw [List.filter_eq_self.mpr all] at kept
  exact sublist.antisymm kept

end Steps

section Calls

/-- Every order that is underway before is there, as it was, after. -/
def KeepsUnderway (book after : SwapOrderBook) : Prop :=
  (book.filter fun order => order.status.isUnderway).Sublist after

/-- One order with the given id goes from funding back to open, and nothing else changes. -/
def Reopens (id : String) (book after : SwapOrderBook) : Prop :=
  ∃ before order rest, order.key = id ∧ order.status = .funding ∧
    book = before ++ order :: rest ∧ after = before ++ { order with status := .open } :: rest

theorem keepsUnderway_addOrder (book : SwapOrderBook) (now : UInt32) (order : SwapOrder) :
    KeepsUnderway book (book.addOrder now order) := by
  refine List.Sublist.trans ?_ (List.sublist_append_left _ _)
  split
  · exact (evict_spec book now).2.1
  · exact List.filter_sublist

theorem keepsUnderway_modifyFirst {found : SwapOrder → Bool} (book : SwapOrderBook)
    (change : SwapOrder → SwapOrder)
    (opened : ∀ order, found order = true → order.status = .open) :
    KeepsUnderway book (modifyFirst found change book) :=
  filter_sublist_modifyFirst change fun order _ hit => by
    rw [opened order hit]
    rfl

theorem keepsUnderway_expireOrders (now : UInt32) (book : SwapOrderBook) :
    KeepsUnderway book (book.expireOrders now).2 := by
  have kept := (List.filter_sublist (l := book)
    (p := fun order => order.status.isUnderway)).map fun order =>
      if order.status == .open && decide (now ≥ order.expiry) then
        { order with status := .cancelled } else order
  rw [List.map_congr_left (g := id) ?_, List.map_id] at kept
  · exact kept
  · intro order member
    have underway := (List.mem_filter.mp member).2
    exact if_neg (by simp [(OrderStatus.isUnderway_iff.mp underway).1])

/-- `release_funding` does nothing, or returns the first order with the id to the open book. -/
theorem releaseFunding_cases (id : String) (book : SwapOrderBook) :
    book.releaseFunding id = (false, book) ∨
      (book.releaseFunding id).1 = true ∧ Reopens id book (book.releaseFunding id).2 := by
  unfold releaseFunding
  cases found : book.getOrder id with
  | none => exact .inl rfl
  | some order =>
      dsimp only
      split
      · exact .inl rfl
      · rename_i funding
        refine .inr ⟨rfl, ?_⟩
        rcases modifyFirst_cases (fun order => order.key == id)
            (fun order => { order with status := .open }) book with
          ⟨absent, -⟩ | ⟨before, first, rest, rfl, earlier, hit, changed⟩
        · rw [getOrder, List.find?_eq_none.mpr (by simpa using absent)] at found
          cases found
        · have here : getOrder (before ++ first :: rest) id = some first := by
            rw [getOrder, List.find?_append, List.find?_eq_none.mpr (by simpa using earlier),
              Option.none_or, List.find?_cons, hit]
          obtain rfl : first = order := by simpa [here] using found
          exact ⟨before, first, rest, by simpa using hit, by simpa using funding, rfl, changed⟩

theorem perform_cases (book : SwapOrderBook) (call : BookCall) :
    KeepsUnderway book (call.perform book) ∨
      ∃ id, call = .releaseFunding id ∧ (book.releaseFunding id).1 = true ∧
        Reopens id book (call.perform book) := by
  cases call with
  | addOrder now order => exact .inl (keepsUnderway_addOrder book now order)
  | cancelOrder id =>
      exact .inl (keepsUnderway_modifyFirst book _ fun order hit => by simp_all)
  | expireOrders now => exact .inl (keepsUnderway_expireOrders now book)
  | beginFunding id =>
      exact .inl (keepsUnderway_modifyFirst book _ fun order hit => by simp_all)
  | releaseFunding id =>
      rcases releaseFunding_cases id book with same | ⟨released, reopened⟩
      · left
        rw [BookCall.perform, same]
        exact List.filter_sublist
      · exact .inr ⟨id, rfl, released, reopened⟩

/-- The orders that are underway and that no call releases. -/
def unreleased (calls : List BookCall) (book : SwapOrderBook) : SwapOrderBook :=
  book.filter fun order =>
    order.status.isUnderway && calls.all fun call => !call.releases order

theorem unreleased_sublist_perform (book : SwapOrderBook) (call : BookCall)
    (calls : List BookCall) :
    (unreleased (call :: calls) book).Sublist (unreleased calls (call.perform book)) := by
  have again : ∀ after : SwapOrderBook, (unreleased (call :: calls) book).Sublist after →
      (unreleased (call :: calls) book).Sublist (unreleased calls after) := by
    intro after sublist
    have filtered := sublist.filter fun order =>
      order.status.isUnderway && calls.all fun call => !call.releases order
    rwa [List.filter_eq_self.mpr] at filtered
    intro order member
    simp only [unreleased, List.mem_filter, Bool.and_eq_true, List.all_cons] at member
    simp [member.2.1, member.2.2.2]
  refine again _ ?_
  rcases perform_cases book call with kept | ⟨id, rfl, -, before, order, rest, key, -, rfl, changed⟩
  · refine List.Sublist.trans (List.monotone_filter_right _ fun order => ?_) kept
    simp +contextual
  · rw [changed, unreleased, List.filter_append, List.filter_cons_of_neg]
    · exact List.filter_sublist.append (List.filter_sublist.cons _)
    · simp [BookCall.releases, key]

theorem unreleased_sublist_performAll (calls : List BookCall) (book : SwapOrderBook) :
    (unreleased calls book).Sublist (performAll calls book) := by
  induction calls generalizing book with
  | nil => exact List.filter_sublist
  | cons call calls ih => exact (unreleased_sublist_perform book call calls).trans (ih _)

end Calls

section Limit

/-- The number of fundings released since an order was added last, after one more call. -/
def countReleases (book : SwapOrderBook) (count : Nat) : BookCall → Nat
  | .addOrder _ _ => 0
  | .releaseFunding id => count + (book.releaseFunding id).1.toNat
  | _ => count

def releasesSinceAdd (count : Nat) : List BookCall → SwapOrderBook → Nat
  | [], _ => count
  | call :: calls, book =>
      releasesSinceAdd (book.countReleases count call) calls (call.perform book)

def underway (book : SwapOrderBook) : Nat :=
  book.countP fun order => order.status.isUnderway

theorem KeepsUnderway.underway_le {book after : SwapOrderBook}
    (kept : KeepsUnderway book after) : book.underway ≤ after.underway := by
  have counted := kept.countP_le (p := fun order => order.status.isUnderway)
  rwa [List.countP_filter, List.countP_congr (q := fun order => order.status.isUnderway)
    (by simp)] at counted

theorem length_modifyFirst (found : SwapOrder → Bool) (change : SwapOrder → SwapOrder)
    (book : SwapOrderBook) : (modifyFirst found change book).length = book.length := by
  rcases modifyFirst_cases found change book with ⟨-, same⟩ | ⟨before, order, after, rfl, -, -, eq⟩
  · rw [same]
  · rw [eq]
    simp

theorem addOrder_limit (book : SwapOrderBook) (now : UInt32) (order : SwapOrder)
    (exceeds : maxOrders < (book.addOrder now order).length) :
    maxOrders ≤ (book.addOrder now order).underway := by
  rw [addOrder, List.length_append, List.length_singleton] at exceeds
  rw [addOrder, underway, List.countP_append]
  split at exceeds
  · rename_i full
    rw [if_pos full]
    rcases (evict_spec book now).2.2 with few | all
    · omega
    · rw [List.countP_eq_length.mpr all]
      omega
  · omega

theorem length_perform (book : SwapOrderBook) (call : BookCall)
    (other : ∀ now order, call ≠ .addOrder now order) :
    (call.perform book).length = book.length := by
  cases call with
  | addOrder now order => exact absurd rfl (other now order)
  | cancelOrder id => exact length_modifyFirst _ _ _
  | expireOrders now => exact List.length_map _
  | beginFunding id => exact length_modifyFirst _ _ _
  | releaseFunding id =>
      rcases releaseFunding_cases id book with same | ⟨-, before, order, rest, -, -, eq, changed⟩
      · rw [BookCall.perform, same]
      · rw [BookCall.perform, changed, eq]
        simp

theorem Reopens.underway_eq {id : String} {book after : SwapOrderBook}
    (reopened : Reopens id book after) : book.underway = after.underway + 1 := by
  obtain ⟨before, order, rest, -, funding, rfl, rfl⟩ := reopened
  simp [underway, List.countP_append, funding, OrderStatus.isUnderway]
  omega

def Reaches (others : Nat) (book : SwapOrderBook) : Prop :=
  maxOrders < book.length → maxOrders ≤ book.underway + others

theorem Reaches.perform {others : Nat} {book : SwapOrderBook} (reached : Reaches others book)
    (call : BookCall) : Reaches (book.countReleases others call) (call.perform book) := by
  intro exceeds
  by_cases adds : ∃ now order, call = .addOrder now order
  · obtain ⟨now, order, rfl⟩ := adds
    exact addOrder_limit book now order exceeds
  · rw [length_perform book call fun now order same => adds ⟨now, order, same⟩] at exceeds
    have before := reached exceeds
    rcases perform_cases book call with kept | ⟨id, rfl, released, reopened⟩
    · have more := kept.underway_le
      have counted : others ≤ book.countReleases others call := by
        cases call with
        | addOrder now order => exact absurd ⟨now, order, rfl⟩ adds
        | releaseFunding id => exact Nat.le_add_right _ _
        | cancelOrder | expireOrders | beginFunding => exact le_rfl
      omega
    · have fewer := reopened.underway_eq
      rw [countReleases, released, Bool.toNat_true]
      omega

theorem Reaches.performAll (calls : List BookCall) {others : Nat} {book : SwapOrderBook}
    (reached : Reaches others book) :
    Reaches (releasesSinceAdd others calls book) (performAll calls book) := by
  induction calls generalizing others book with
  | nil => exact reached
  | cons call calls ih => exact ih (reached.perform call)

end Limit

/-- In every run of calls, an order that is underway stays as it is; only the release of its
funding returns it to the open book.  From the empty book, more orders than the limit are
held only while that many are underway, counting those whose funding was released since an
order was added last. -/
theorem underway_orders_stay (calls : List BookCall) (book : SwapOrderBook) :
    (∀ call : BookCall, KeepsUnderway book (call.perform book) ∨
      ∃ id, call = .releaseFunding id ∧ Reopens id book (call.perform book)) ∧
    (unreleased calls book).Sublist (performAll calls book) ∧
    (maxOrders < (performAll calls []).length →
      maxOrders ≤ (performAll calls []).underway + releasesSinceAdd 0 calls []) := by
  refine ⟨fun call => ?_, unreleased_sublist_performAll calls book, ?_⟩
  · rcases perform_cases book call with kept | ⟨id, rfl, -, reopened⟩
    · exact .inl kept
    · exact .inr ⟨id, rfl, reopened⟩
  · have empty : Reaches 0 [] := fun exceeds => absurd exceeds (by simp)
    exact empty.performAll calls

section FullBook

def numbered (number : Nat) : SwapOrder where
  orderId := ⟨leBytes 32 number, by simp⟩
  makerAddress := ""
  makerBtcAddress := none
  vtrAmount := 1
  targetAsset := "BTC"
  targetAmount := 1
  hashLock := none
  fundingTxid := none
  takerAddress := none
  preimage := none
  expiry := 1
  createdAt := 0
  status := .open

def fundedOrder (number : Nat) : SwapOrder :=
  { numbered number with status := .funding }

def fundingCalls (count : Nat) : List BookCall :=
  (List.range count).flatMap fun number =>
    [.addOrder 0 (numbered number), .beginFunding (numbered number).key]

theorem underway_of_mem_funded {count : Nat} {order : SwapOrder}
    (member : order ∈ (List.range count).map fundedOrder) :
    order.status.isUnderway = true := by
  obtain ⟨number, -, rfl⟩ := List.mem_map.mp member
  rfl

theorem addOrder_funded (count : Nat) (order : SwapOrder) :
    addOrder ((List.range count).map fundedOrder) 0 order =
      (List.range count).map fundedOrder ++ [order] := by
  rw [addOrder, evict_eq_self 0 fun order member => underway_of_mem_funded member, ite_self]

theorem beginFunding_funded (count : Nat) :
    (beginFunding (numbered count).key
      ((List.range count).map fundedOrder ++ [numbered count])).2 =
      (List.range (count + 1)).map fundedOrder := by
  have found : ((numbered count).key == (numbered count).key &&
      (numbered count).status == .open) = true := by
    rw [beq_self_eq_true]
    rfl
  rw [List.range_succ, List.map_append, beginFunding]
  dsimp only
  rw [modifyFirst_append, modifyFirst, if_pos found]
  · rfl
  · intro order member
    obtain ⟨number, -, rfl⟩ := List.mem_map.mp member
    exact Bool.and_false _

theorem performAll_fundingCalls (count : Nat) :
    performAll (fundingCalls count) [] = (List.range count).map fundedOrder := by
  induction count with
  | zero => rfl
  | succ count ih =>
      rw [performAll, fundingCalls, List.range_succ, List.flatMap_append, List.foldl_append]
      change performAll _ (performAll (fundingCalls count) []) = _
      rw [ih, List.flatMap_singleton]
      change (beginFunding _ (addOrder _ _ _)).2 = _
      rw [addOrder_funded, beginFunding_funded, List.range_succ]

theorem releaseFunding_first (count : Nat) (order : SwapOrder) :
    (releaseFunding (numbered 0).key ((List.range (count + 1)).map fundedOrder ++ [order])).2 =
      numbered 0 :: (List.range count).map (fun number => fundedOrder (number + 1)) ++ [order] := by
  have first : ((fundedOrder 0).key == (numbered 0).key) = true := beq_self_eq_true _
  rw [List.range_succ_eq_map, List.map_cons, List.cons_append, releaseFunding, getOrder,
    List.find?_cons, first]
  dsimp only
  rw [if_neg (by decide), modifyFirst, if_pos first, List.map_map]
  rfl

def releaseCalls (count : Nat) : List BookCall :=
  fundingCalls count ++ [.addOrder 0 (numbered count), .releaseFunding (numbered 0).key]

theorem performAll_releaseCalls (count : Nat) :
    performAll (releaseCalls (count + 1)) [] =
      numbered 0 :: (List.range count).map (fun number => fundedOrder (number + 1)) ++
        [numbered (count + 1)] := by
  rw [performAll, releaseCalls, List.foldl_append]
  change (releaseFunding _ (addOrder (performAll (fundingCalls (count + 1)) []) 0 _)).2 = _
  rw [performAll_fundingCalls, addOrder_funded]
  exact releaseFunding_first count _

theorem length_releaseCalls (count : Nat) :
    (performAll (releaseCalls (count + 1)) []).length = count + 2 := by
  rw [performAll_releaseCalls]
  simp

theorem underway_releaseCalls (count : Nat) :
    (performAll (releaseCalls (count + 1)) []).underway = count := by
  rw [performAll_releaseCalls]
  simp [underway, List.countP_append, List.countP_map, Function.comp_def, numbered,
    fundedOrder, OrderStatus.isUnderway]

/-- With as many funded orders as the limit and an open one, the release of one funding
leaves the book over its limit with fewer orders underway. -/
theorem released_over_limit :
    maxOrders < (performAll (releaseCalls maxOrders) []).length ∧
      (performAll (releaseCalls maxOrders) []).underway < maxOrders := by
  have limit : maxOrders = 9999 + 1 := rfl
  rw [limit, length_releaseCalls, underway_releaseCalls]
  decide

end FullBook

end SwapOrderBook

end Vtorrent
