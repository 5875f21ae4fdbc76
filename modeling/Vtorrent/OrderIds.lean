import Vtorrent.HashTimeLock
import Vtorrent.OrderBooks
import Vtorrent.SwapRecovery
import Vtorrent.SwapTransactions

/-!
# Order ids

Orders reach the book from the gossip of peers, from local placement and from the recovery
journal.  Announcements are filtered by a bounded set of ids that were announced before;
local placement does not consult that set and the book does not compare ids.  So the ids of
the book are distinct as long as announced and local orders use different ids and no id is
announced again after it was forgotten.
-/

namespace Vtorrent

/-! ## Orders of peers and local orders -/

/-- What the order handlers take from other libraries. -/
structure OrderServices where
  crypto : Crypto
  /-- `bs58::decode` -/
  decodeBase58 : String → Option Bytes
  /-- Whether a text parses as a Bitcoin address. -/
  isBtcAddress : String → Bool
  /-- `str::trim` -/
  trim : String → String
  /-- `serde_json::from_slice` of an announcement. -/
  parseAnnouncement : Bytes → Option OrderAnnouncement

/-- Seconds since the epoch, as far as four bytes hold them. -/
def nowTimestampU32 (clock : UInt64) : UInt32 :=
  UInt32.ofNat (min clock.toNat (2 ^ 32 - 1))

namespace OrderAnnouncement

/-- `to_order`. -/
def toOrder (announcement : OrderAnnouncement) (clock : UInt64) : SwapOrder where
  orderId := announcement.orderId
  makerAddress := announcement.makerAddress
  makerBtcAddress := announcement.makerBtcAddress
  vtrAmount := announcement.vtrAmount
  targetAsset := announcement.targetAsset
  targetAmount := announcement.targetAmount
  hashLock := announcement.hashLock
  fundingTxid := none
  takerAddress := none
  preimage := none
  expiry := announcement.expiry
  createdAt := clock
  status := .open

def isValid (services : OrderServices) (announcement : OrderAnnouncement) : Bool :=
  Engine.isOk
      (validateP2pkh services.crypto services.decodeBase58 announcement.makerAddress) &&
    decide (announcement.makerAddress.utf8ByteSize ≤ 128) &&
    decide (announcement.targetAsset.utf8ByteSize ≤ 64) &&
    decide (announcement.vtrAmount > 0) && decide (announcement.targetAmount > 0) &&
    decide (announcement.vtrAmount ≤ maxMoney) && decide (announcement.targetAmount ≤ maxMoney)

end OrderAnnouncement

/-- `SwapOrder::new`. -/
def SwapOrder.new (crypto : Crypto) (makerAddress : String) (vtrAmount : UInt64)
    (targetAsset : String) (targetAmount : UInt64) (locktimeSeconds : Nat) (clock : UInt64) :
    SwapOrder :=
  let now := nowTimestampU32 clock
  { orderId := crypto.sha256 (makerAddress.toUTF8.toList ++ leBytes 8 vtrAmount.toNat ++
      targetAsset.toUTF8.toList ++ leBytes 8 targetAmount.toNat ++ leBytes 4 now.toNat)
    makerAddress, makerBtcAddress := none, vtrAmount, targetAsset, targetAmount
    hashLock := none, fundingTxid := none, takerAddress := none, preimage := none
    expiry := UInt32.ofNat (min (now.toNat + locktimeSeconds) (2 ^ 32 - 1))
    createdAt := UInt64.ofNat now.toNat
    status := .open }

/-- The node's part in the exchange: its order book and the ids it has seen announced. -/
structure OrderNode where
  book : SwapOrderBook
  seenOrders : Finset Hash

namespace OrderNode

def new : OrderNode := ⟨[], ∅⟩

def maxSeenOrders : Nat := 100000

/-- What becomes of an announcement. -/
inductive Gossip where
  | malformed
  | known
  | relayed
deriving DecidableEq

/-- The `dexorder` message of a peer. -/
def dexOrder (services : OrderServices) (clock : UInt64) (payload : Bytes) (node : OrderNode) :
    Gossip × OrderNode :=
  match services.parseAnnouncement payload with
  | none => (.malformed, node)
  | some announcement =>
      if !announcement.isValid services then (.malformed, node)
      else if announcement.orderId ∈ node.seenOrders then (.known, node)
      else
        let seen := insert announcement.orderId node.seenOrders
        (.relayed, {
          book := node.book.addOrder (nowTimestampU32 clock) (announcement.toOrder clock)
          seenOrders := if maxSeenOrders < seen.card then {announcement.orderId} else seen })

end OrderNode

def minHtlcLocktime : Nat := 3600

def maxHtlcLocktime : Nat := 7 * 24 * 3600

structure PlaceOrderRequest where
  makerAddress : String
  makerBtcAddress : Option String
  offerAmountSatoshis : UInt64
  requestAmountSatoshis : UInt64
  requestAsset : String
  expirySecs : UInt64

structure PlaceOrderResponse where
  orderId : String
  htlcAddress : Option String
  hashLock : String
  fundingTxid : Option String
  status : String

def orderLocktime (expirySecs : UInt64) : Except RpcError Nat :=
  if expirySecs = 0 then .ok defaultHtlcLocktime
  else if expirySecs.toNat ≤ 2 ^ 32 - 1 then .ok expirySecs.toNat
  else .error (.badRequest ("DEX order expiry " ++ toString expirySecs ++
    " seconds is too large — must fit in u32"))

def prepareDexOrder (services : OrderServices) (unlocked : Bool) (clock : UInt64)
    (preimage : Hash) (req : PlaceOrderRequest) : Except RpcError SwapOrder := do
  rejectIf (!unlocked) RpcError.walletLocked
  rejectIf (req.offerAmountSatoshis == 0 || req.requestAmountSatoshis == 0)
    (RpcError.badRequest ("DEX order amounts must be greater than zero (offer: " ++
      toString req.offerAmountSatoshis ++ " sats, request: " ++
      toString req.requestAmountSatoshis ++ " sats)"))
  rejectIf (services.trim req.requestAsset == "")
    (RpcError.badRequest "Requested asset is required — specify the target asset (e.g. \"BTC\")")
  rejectIf (!Engine.isOk (validateP2pkh services.crypto services.decodeBase58 req.makerAddress))
    (RpcError.badRequest ("Invalid maker address: " ++ req.makerAddress))
  rejectIf (req.makerBtcAddress.any fun address => !services.isBtcAddress address)
    (RpcError.badRequest ("Invalid maker BTC address: " ++ req.makerBtcAddress.getD ""))
  let locktime ← orderLocktime req.expirySecs
  rejectIf (decide (locktime < minHtlcLocktime) || decide (maxHtlcLocktime < locktime))
    (RpcError.badRequest ("DEX order expiry " ++ toString locktime ++
      " seconds is outside valid range [" ++ toString minHtlcLocktime ++ ", " ++
      toString maxHtlcLocktime ++ "] seconds"))
  let order := SwapOrder.new services.crypto req.makerAddress req.offerAmountSatoshis
    req.requestAsset req.requestAmountSatoshis locktime clock
  pure { order with
    hashLock := some (services.crypto.sha256 preimage.toList)
    preimage := some preimage
    makerBtcAddress := req.makerBtcAddress }

/-- `place_dex_order_with_state`; `saved` is what came of saving the recovery record. -/
def placeDexOrder (services : OrderServices) (unlocked : Bool) (clock : UInt64)
    (preimage : Hash) (saved : Except RpcError Unit) (req : PlaceOrderRequest)
    (book : SwapOrderBook) : Except RpcError (PlaceOrderResponse × SwapOrderBook) := do
  let order ← prepareDexOrder services unlocked clock preimage req
  saved
  pure ({
    orderId := order.key
    htlcAddress := none
    hashLock := hexEncode (services.crypto.sha256 preimage.toList).toList
    fundingTxid := none
    status := "Open" }, book.addOrder (nowTimestampU32 clock) order)

structure MatchTerms where
  takerAddress : String
  preimage : Hash
  hashLock : Hash
  fundingTxid : Hash

namespace SwapOrderBook

def matchedOrder (terms : MatchTerms) (now : UInt32) (order : SwapOrder) : SwapOrder :=
  if now ≥ order.expiry then { order with status := .cancelled }
  else { order with
    status := .matched
    hashLock := some terms.hashLock
    preimage := some terms.preimage
    fundingTxid := some terms.fundingTxid
    takerAddress := some terms.takerAddress }

/-- `fund_and_match_order`. -/
def fundAndMatchOrder (id : String) (terms : MatchTerms) (now : UInt32) (book : SwapOrderBook) :
    Option SwapOrder × SwapOrderBook :=
  let found := fun order : SwapOrder => order.key == id && order.status == .funding
  ((book.find? found).bind fun order =>
      if now ≥ order.expiry then none else some (matchedOrder terms now order),
    modifyFirst found (matchedOrder terms now) book)

end SwapOrderBook

/-- What can happen to the book. -/
inductive OrderEvent where
  | dexOrder (clock : UInt64) (payload : Bytes)
  | placeDexOrder (unlocked : Bool) (clock : UInt64) (preimage : Hash)
      (saved : Except RpcError Unit) (req : PlaceOrderRequest)
  | cancelOrder (id : String)
  | expireOrders (now : UInt32)
  | beginFunding (id : String)
  | releaseFunding (id : String)
  | fundAndMatchOrder (id : String) (terms : MatchTerms) (now : UInt32)
  | restoreOrder (now : UInt32) (order : SwapOrder)

namespace OrderNode

def perform (services : OrderServices) (node : OrderNode) : OrderEvent → OrderNode
  | .dexOrder clock payload => (node.dexOrder services clock payload).2
  | .placeDexOrder unlocked clock preimage saved req =>
      match Vtorrent.placeDexOrder services unlocked clock preimage saved req node.book with
      | .ok (_, book) => { node with book }
      | .error _ => node
  | .cancelOrder id => { node with book := (node.book.cancelOrder id).2 }
  | .expireOrders now => { node with book := (node.book.expireOrders now).2 }
  | .beginFunding id => { node with book := (node.book.beginFunding id).2 }
  | .releaseFunding id => { node with book := (node.book.releaseFunding id).2 }
  | .fundAndMatchOrder id terms now =>
      { node with book := (node.book.fundAndMatchOrder id terms now).2 }
  | .restoreOrder now order => { node with book := node.book.restoreOrder now order }

def performAll (services : OrderServices) (events : List OrderEvent) (node : OrderNode) :
    OrderNode :=
  events.foldl (perform services) node

end OrderNode

/-! ## Ids that messages and local orders use -/

inductive IdUse where
  | announced (id : Hash)
  | placed (id : Hash)
  | restored (id : Hash)

/-- The id that a valid announcement, a saved local order or a recovered order uses. -/
def OrderEvent.use (services : OrderServices) : OrderEvent → Option IdUse
  | .dexOrder _ payload =>
      ((services.parseAnnouncement payload).filter fun announcement =>
        announcement.isValid services).map fun announcement => .announced announcement.orderId
  | .placeDexOrder unlocked clock preimage saved req =>
      (do let order ← prepareDexOrder services unlocked clock preimage req
          saved
          pure (IdUse.placed order.orderId)).toOption
  | .restoreOrder _ order => some (.restored order.orderId)
  | _ => none

def remember (id : Hash) (seen : Finset Hash) : Finset Hash :=
  if id ∈ seen then seen
  else if OrderNode.maxSeenOrders < (insert id seen).card then {id}
  else insert id seen

/-- The ids that were announced at all, those of them that are remembered, and those that were
only used locally. -/
structure UsedIds where
  announced : Finset Hash
  seen : Finset Hash
  own : Finset Hash

namespace UsedIds

def none : UsedIds := ⟨∅, ∅, ∅⟩

def add (ids : UsedIds) : IdUse → UsedIds
  | .announced id => { ids with
      announced := insert id ids.announced
      seen := remember id ids.seen }
  | .placed id => { ids with own := insert id ids.own }
  | .restored id => if id ∈ ids.announced then ids else { ids with own := insert id ids.own }

def addAll (ids : UsedIds) (uses : List IdUse) : UsedIds := uses.foldl add ids

/-- An announcement uses a remembered id or a new one, and a local order uses a new one. -/
def Allows (ids : UsedIds) : IdUse → Prop
  | .announced id => id ∉ ids.own ∧ (id ∈ ids.announced → id ∈ ids.seen)
  | .placed id => id ∉ ids.own ∧ id ∉ ids.announced
  | .restored _ => True

instance (ids : UsedIds) (use : IdUse) : Decidable (ids.Allows use) := by
  cases use <;> unfold Allows <;> infer_instance

def AllowsAll : UsedIds → List IdUse → Prop
  | _, [] => True
  | ids, use :: uses => ids.Allows use ∧ (ids.add use).AllowsAll uses

instance AllowsAll.decidable : (ids : UsedIds) → (uses : List IdUse) →
    Decidable (ids.AllowsAll uses)
  | _, [] => .isTrue trivial
  | ids, use :: uses =>
      have := AllowsAll.decidable (ids.add use) uses
      inferInstanceAs (Decidable (ids.Allows use ∧ _))

theorem announced_subset_add (ids : UsedIds) (use : IdUse) :
    ids.announced ⊆ (ids.add use).announced := by
  cases use with
  | announced id => exact Finset.subset_insert id ids.announced
  | placed id => exact Finset.Subset.refl _
  | restored id =>
      unfold add
      dsimp only
      split <;> exact Finset.Subset.refl _

theorem own_subset_add (ids : UsedIds) (use : IdUse) : ids.own ⊆ (ids.add use).own := by
  cases use with
  | announced id => exact Finset.Subset.refl _
  | placed id => exact Finset.subset_insert id ids.own
  | restored id =>
      unfold add
      dsimp only
      split
      · exact Finset.Subset.refl _
      · exact Finset.subset_insert id ids.own

theorem mem_add_restored (ids : UsedIds) (id : Hash) :
    id ∈ (ids.add (.restored id)).announced ∨ id ∈ (ids.add (.restored id)).own := by
  unfold add
  dsimp only
  split
  · rename_i announced
    exact .inl announced
  · exact .inr (Finset.mem_insert_self id ids.own)

theorem seen_add {ids : UsedIds} (covered : ids.seen = ids.announced) {use : IdUse}
    (few : (ids.add use).announced.card ≤ OrderNode.maxSeenOrders) :
    (ids.add use).seen = (ids.add use).announced := by
  cases use with
  | announced id =>
      have room : (insert id ids.announced).card ≤ OrderNode.maxSeenOrders := few
      unfold add remember
      dsimp only
      rw [covered]
      split
      · rename_i known
        exact (Finset.insert_eq_of_mem known).symm
      · exact if_neg (Nat.not_lt.mpr room)
  | placed id => exact covered
  | restored id =>
      unfold add
      dsimp only
      split <;> exact covered

theorem seen_addAll (uses : List IdUse)
    (few : (none.addAll uses).announced.card ≤ OrderNode.maxSeenOrders) :
    (none.addAll uses).seen = (none.addAll uses).announced := by
  induction uses using List.reverseRecOn with
  | nil => rfl
  | append_singleton uses use ih =>
      rw [addAll, List.foldl_append, List.foldl_cons, List.foldl_nil, ← addAll] at few ⊢
      have fewer := Finset.card_le_card (announced_subset_add (none.addAll uses) use)
      exact seen_add (ih (fewer.trans few)) few

end UsedIds

namespace OrderNode

/-- The id under which a peer or the local user brings an order into the book. -/
def brings (services : OrderServices) (node : OrderNode) (event : OrderEvent) : Option Hash :=
  match event.use services with
  | some (.announced id) => if id ∈ node.seenOrders then none else some id
  | some (.placed id) => some id
  | _ => none

/-- The order that an event brings has an id that is not in the book. -/
def Fresh (services : OrderServices) (node : OrderNode) (event : OrderEvent) : Prop :=
  ∀ id ∈ node.brings services event, id ∉ node.book.map SwapOrder.orderId

end OrderNode

/-! ## Distinct ids -/

theorem SwapOrder.key_inj {first second : SwapOrder} :
    first.key = second.key ↔ first.orderId = second.orderId := by
  refine ⟨fun same => ?_, fun same => by rw [key, key, same]⟩
  exact List.Vector.toList_injective (hexEncode_injective same)

namespace SwapOrderBook

def Distinct (book : SwapOrderBook) : Prop := (book.map SwapOrder.orderId).Nodup

instance (book : SwapOrderBook) : Decidable book.Distinct :=
  inferInstanceAs (Decidable (List.Nodup _))

variable {book : SwapOrderBook}

theorem ids_modifyFirst (found : SwapOrder → Bool) {change : SwapOrder → SwapOrder}
    (keeps : ∀ order, (change order).orderId = order.orderId) (book : SwapOrderBook) :
    (modifyFirst found change book).map SwapOrder.orderId = book.map SwapOrder.orderId := by
  rcases modifyFirst_cases found change book with
    ⟨-, same⟩ | ⟨before, order, after, rfl, -, -, changed⟩
  · rw [same]
  · rw [changed]
    simp [keeps]

theorem ids_expireOrders (now : UInt32) (book : SwapOrderBook) :
    (book.expireOrders now).2.map SwapOrder.orderId = book.map SwapOrder.orderId := by
  rw [expireOrders, List.map_map]
  refine List.map_congr_left fun order _ => ?_
  rw [Function.comp_apply]
  split <;> rfl

theorem ids_releaseFunding (id : String) (book : SwapOrderBook) :
    (book.releaseFunding id).2.map SwapOrder.orderId = book.map SwapOrder.orderId := by
  rcases releaseFunding_cases id book with same | ⟨-, before, order, rest, -, -, eq, changed⟩
  · rw [same]
  · rw [changed, eq]
    simp

theorem ids_overwrite (order : SwapOrder) (book : SwapOrderBook) :
    (overwrite order book).map SwapOrder.orderId = book.map SwapOrder.orderId := by
  induction book with
  | nil => rfl
  | cons existing orders ih =>
      rw [overwrite]
      split
      · rename_i same
        simp [same]
      · simp [ih]

theorem restoreOrder_cases (book : SwapOrderBook) (now : UInt32) (order : SwapOrder) :
    (restoreOrder book now order).map SwapOrder.orderId = book.map SwapOrder.orderId ∨
      order.orderId ∉ book.map SwapOrder.orderId ∧
        restoreOrder book now order = book.addOrder now order := by
  unfold restoreOrder
  cases known : book.find? fun existing => decide (existing.orderId = order.orderId) with
  | none =>
      refine .inr ⟨?_, rfl⟩
      simpa using known
  | some existing =>
      left
      dsimp only
      split
      · exact ids_overwrite order book
      · rfl

theorem room_sublist (book : SwapOrderBook) (now : UInt32) :
    (if maxOrders ≤ book.length then evict book now else book).Sublist book := by
  split
  · exact (evict_spec book now).1
  · exact List.Sublist.refl _

theorem mem_addOrder {now : UInt32} {order other : SwapOrder}
    (member : other ∈ book.addOrder now order) : other ∈ book ∨ other = order := by
  rcases List.mem_append.mp member with old | new
  · exact .inl ((room_sublist book now).subset old)
  · exact .inr (List.mem_singleton.mp new)

theorem Distinct.addOrder (distinct : book.Distinct) (now : UInt32) {order : SwapOrder}
    (fresh : order.orderId ∉ book.map SwapOrder.orderId) :
    (book.addOrder now order).Distinct := by
  have room := room_sublist book now
  rw [Distinct, SwapOrderBook.addOrder, List.map_append, List.map_singleton,
    ← List.concat_eq_append, List.nodup_concat]
  exact ⟨fun member => fresh ((room.map _).subset member), distinct.sublist (room.map _)⟩

theorem distinct_addOrder_iff (distinct : book.Distinct) (now : UInt32) (order : SwapOrder)
    (room : book.length < maxOrders) :
    (book.addOrder now order).Distinct ↔ order.orderId ∉ book.map SwapOrder.orderId := by
  refine ⟨fun after => ?_, distinct.addOrder now⟩
  rw [Distinct, SwapOrderBook.addOrder, if_neg (Nat.not_le.mpr room), List.map_append,
    List.map_singleton, ← List.concat_eq_append, List.nodup_concat] at after
  exact after.1

theorem Distinct.eq_of_orderId (distinct : book.Distinct) {first second : SwapOrder}
    (member : first ∈ book) (member' : second ∈ book) (same : first.orderId = second.orderId) :
    first = second :=
  List.inj_on_of_nodup_map distinct member member' same

/-- With distinct ids, a search for an id and a status finds the order of `get_order`. -/
theorem Distinct.find_eq_getOrder (distinct : book.Distinct) (id : String)
    (status : OrderStatus) :
    (book.find? fun order => order.key == id && order.status == status) =
      (book.getOrder id).filter fun order => order.status == status := by
  cases known : book.getOrder id with
  | none =>
      have absent := List.find?_eq_none.mp known
      rw [Option.filter_none, List.find?_eq_none]
      intro order member
      have other := absent order member
      simp_all
  | some order =>
      have key := getOrder_key known
      have member := List.mem_of_find?_eq_some known
      have only : ∀ other ∈ book, other.key = id → other = order := fun other there same =>
        distinct.eq_of_orderId there member (SwapOrder.key_inj.mp (same.trans key.symm))
      by_cases here : order.status = status
      · rw [Option.filter_some_pos (by simpa using here)]
        cases found : book.find? fun order => order.key == id && order.status == status with
        | none => simpa [key, here] using List.find?_eq_none.mp found order member
        | some other =>
            have hit := List.find?_some found
            simp only [Bool.and_eq_true, beq_iff_eq] at hit
            rw [only other (List.mem_of_find?_eq_some found) hit.1]
      · rw [Option.filter_some_neg (by simpa using here), List.find?_eq_none]
        intro other there hit
        simp only [Bool.and_eq_true, beq_iff_eq] at hit
        exact here (only other there hit.1 ▸ hit.2)

end SwapOrderBook

namespace OrderNode

variable {services : OrderServices} {node : OrderNode}

theorem dexOrder_cases (services : OrderServices) (node : OrderNode) (clock : UInt64)
    (payload : Bytes) :
    (∃ now order, node.brings services (.dexOrder clock payload) = some order.orderId ∧
      (node.dexOrder services clock payload).2.book = node.book.addOrder now order) ∨
    node.brings services (.dexOrder clock payload) = none ∧
      (node.dexOrder services clock payload).2.book = node.book := by
  simp only [brings, OrderEvent.use, dexOrder]
  cases services.parseAnnouncement payload with
  | none => exact .inr ⟨rfl, rfl⟩
  | some announcement =>
      simp only [Option.filter_some]
      cases announcement.isValid services with
      | false => exact .inr ⟨rfl, rfl⟩
      | true =>
          simp only [if_true, Option.map_some, Bool.not_true, Bool.false_eq_true, if_false]
          split
          · exact .inr ⟨rfl, rfl⟩
          · exact .inl ⟨_, announcement.toOrder clock, rfl, rfl⟩

theorem perform_cases (services : OrderServices) (node : OrderNode) (event : OrderEvent) :
    (∃ now order, node.brings services event = some order.orderId ∧
      (node.perform services event).book = node.book.addOrder now order) ∨
    node.brings services event = none ∧
      ((node.perform services event).book.map SwapOrder.orderId =
          node.book.map SwapOrder.orderId ∨
        ∃ now order, event.use services = some (.restored order.orderId) ∧
          order.orderId ∉ node.book.map SwapOrder.orderId ∧
          (node.perform services event).book = node.book.addOrder now order) := by
  cases event with
  | dexOrder clock payload =>
      rcases dexOrder_cases services node clock payload with added | ⟨none, same⟩
      · exact .inl added
      · exact .inr ⟨none, .inl (by rw [perform, same])⟩
  | placeDexOrder unlocked clock preimage saved req =>
      simp only [brings, OrderEvent.use, perform, Vtorrent.placeDexOrder]
      cases prepareDexOrder services unlocked clock preimage req with
      | error reason => exact .inr ⟨rfl, .inl rfl⟩
      | ok order =>
          cases saved with
          | error reason => exact .inr ⟨rfl, .inl rfl⟩
          | ok _ => exact .inl ⟨_, order, rfl, rfl⟩
  | cancelOrder id =>
      refine .inr ⟨rfl, .inl ?_⟩
      apply SwapOrderBook.ids_modifyFirst
      exact fun order => rfl
  | expireOrders now => exact .inr ⟨rfl, .inl (SwapOrderBook.ids_expireOrders now _)⟩
  | beginFunding id =>
      refine .inr ⟨rfl, .inl ?_⟩
      apply SwapOrderBook.ids_modifyFirst
      exact fun order => rfl
  | releaseFunding id => exact .inr ⟨rfl, .inl (SwapOrderBook.ids_releaseFunding id _)⟩
  | fundAndMatchOrder id terms now =>
      refine .inr ⟨rfl, .inl (SwapOrderBook.ids_modifyFirst _ (fun order => ?_) _)⟩
      unfold SwapOrderBook.matchedOrder
      split <;> rfl
  | restoreOrder now order =>
      rcases SwapOrderBook.restoreOrder_cases node.book now order with same | ⟨absent, added⟩
      · exact .inr ⟨rfl, .inl same⟩
      · exact .inr ⟨rfl, .inr ⟨now, order, rfl, absent, added⟩⟩

theorem distinct_perform (distinct : node.book.Distinct) {event : OrderEvent}
    (fresh : Fresh services node event) : (node.perform services event).book.Distinct := by
  rcases perform_cases services node event with
    ⟨now, order, brought, added⟩ | ⟨-, same | ⟨now, order, -, absent, added⟩⟩
  · rw [added]
    exact distinct.addOrder now (fresh order.orderId brought)
  · rw [SwapOrderBook.Distinct, same]
    exact distinct
  · rw [added]
    exact distinct.addOrder now absent

theorem distinct_perform_iff (distinct : node.book.Distinct)
    (room : node.book.length < SwapOrderBook.maxOrders) (event : OrderEvent) :
    (node.perform services event).book.Distinct ↔ Fresh services node event := by
  refine ⟨fun after id brought => ?_, distinct_perform distinct⟩
  rcases perform_cases services node event with
    ⟨now, added, same, book⟩ | ⟨none, -⟩
  · rw [book, SwapOrderBook.distinct_addOrder_iff distinct now added room] at after
    obtain rfl : added.orderId = id := by simpa [same] using brought
    exact after
  · rw [none] at brought
    cases brought

theorem dexOrder_keeps (distinct : node.book.Distinct) {clock : UInt64} {payload : Bytes}
    (fresh : Fresh services node (.dexOrder clock payload)) {order later : SwapOrder}
    (member : order ∈ node.book)
    (there : later ∈ (node.perform services (.dexOrder clock payload)).book)
    (same : later.orderId = order.orderId) : later = order := by
  rw [perform] at there
  rcases dexOrder_cases services node clock payload with
    ⟨now, announced, brought, added⟩ | ⟨-, unchanged⟩
  · rw [added] at there
    rcases SwapOrderBook.mem_addOrder there with old | rfl
    · exact distinct.eq_of_orderId old member same
    · exact absurd (same ▸ List.mem_map_of_mem member) (fresh later.orderId brought)
  · rw [unchanged] at there
    exact distinct.eq_of_orderId there member same

/-! ## What the seen ids cover -/

/-- The ids of the book have been used, and the node remembers the announced ones that it
should. -/
structure Covered (ids : UsedIds) (node : OrderNode) : Prop where
  seen : node.seenOrders = ids.seen
  used : ∀ order ∈ node.book, order.orderId ∈ ids.announced ∨ order.orderId ∈ ids.own
  distinct : node.book.Distinct

def usesOf (services : OrderServices) (events : List OrderEvent) : List IdUse :=
  events.filterMap (OrderEvent.use services)

theorem use_of_brings {event : OrderEvent} {id : Hash}
    (brought : node.brings services event = some id) :
    event.use services = some (.announced id) ∧ id ∉ node.seenOrders ∨
      event.use services = some (.placed id) := by
  unfold brings at brought
  cases use : event.use services with
  | none => simp [use] at brought
  | some use' =>
      cases use' with
      | announced other =>
          obtain ⟨unseen, rfl⟩ : other ∉ node.seenOrders ∧ other = id := by
            simpa [use] using brought
          exact .inl ⟨rfl, unseen⟩
      | placed other =>
          obtain rfl : other = id := by simpa [use] using brought
          exact .inr rfl
      | restored other => simp [use] at brought

theorem Covered.fresh {ids : UsedIds} (covered : Covered ids node) {event : OrderEvent}
    (allowed : ∀ use ∈ event.use services, ids.Allows use) : Fresh services node event := by
  intro id brought taken
  obtain ⟨order, member, rfl⟩ := List.mem_map.mp taken
  have used := covered.used order member
  rcases use_of_brings brought with ⟨use, unseen⟩ | use
  · have allows := allowed _ use
    rw [covered.seen] at unseen
    exact used.elim (fun announced => unseen (allows.2 announced)) allows.1
  · have allows := allowed _ use
    exact used.elim allows.2 allows.1

theorem seenOrders_perform (services : OrderServices) (node : OrderNode) (event : OrderEvent) :
    (node.perform services event).seenOrders =
      match event.use services with
      | some (.announced id) => remember id node.seenOrders
      | _ => node.seenOrders := by
  cases event with
  | dexOrder clock payload =>
      simp only [OrderEvent.use, perform, dexOrder]
      cases services.parseAnnouncement payload with
      | none => rfl
      | some announcement =>
          simp only [Option.filter_some]
          cases announcement.isValid services with
          | false => rfl
          | true =>
              simp only [if_true, Option.map_some, Bool.not_true, Bool.false_eq_true, if_false,
                remember]
              split <;> rfl
  | placeDexOrder unlocked clock preimage saved req =>
      simp only [OrderEvent.use, perform, Vtorrent.placeDexOrder]
      cases prepareDexOrder services unlocked clock preimage req with
      | error reason => rfl
      | ok order => cases saved <;> rfl
  | cancelOrder | expireOrders | beginFunding | releaseFunding | fundAndMatchOrder
  | restoreOrder => rfl

theorem Covered.seen_perform {ids : UsedIds} (covered : Covered ids node) (event : OrderEvent) :
    (node.perform services event).seenOrders =
      ((event.use services).elim ids ids.add).seen := by
  rw [seenOrders_perform, covered.seen]
  cases event.use services with
  | none => rfl
  | some use =>
      cases use with
      | announced id => rfl
      | placed id => rfl
      | restored id =>
          simp only [Option.elim_some, UsedIds.add]
          split <;> rfl

theorem Covered.used_perform {ids : UsedIds} (covered : Covered ids node) (event : OrderEvent) :
    ∀ order ∈ (node.perform services event).book,
      order.orderId ∈ ((event.use services).elim ids ids.add).announced ∨
        order.orderId ∈ ((event.use services).elim ids ids.add).own := by
  have kept : ∀ order ∈ node.book,
      order.orderId ∈ ((event.use services).elim ids ids.add).announced ∨
        order.orderId ∈ ((event.use services).elim ids ids.add).own := by
    intro order member
    have used := covered.used order member
    cases event.use services with
    | none => exact used
    | some use =>
        exact used.imp (fun there => ids.announced_subset_add use there)
          fun there => ids.own_subset_add use there
  intro order member
  rcases perform_cases services node event with
    ⟨now, added, brought, book⟩ | ⟨-, same | ⟨now, added, restored, -, book⟩⟩
  · rw [book] at member
    rcases SwapOrderBook.mem_addOrder member with old | rfl
    · exact kept order old
    · rcases use_of_brings brought with ⟨use, -⟩ | use
      · rw [use]
        exact .inl (Finset.mem_insert_self _ _)
      · rw [use]
        exact .inr (Finset.mem_insert_self _ _)
  · have there := List.mem_map_of_mem (f := SwapOrder.orderId) member
    rw [same] at there
    obtain ⟨old, member, known⟩ := List.mem_map.mp there
    rw [← known]
    exact kept old member
  · rw [book] at member
    rcases SwapOrderBook.mem_addOrder member with old | rfl
    · exact kept order old
    · rw [restored]
      exact ids.mem_add_restored order.orderId

theorem Covered.perform {ids : UsedIds} (covered : Covered ids node) {event : OrderEvent}
    (allowed : ∀ use ∈ event.use services, ids.Allows use) :
    Covered ((event.use services).elim ids ids.add) (node.perform services event) where
  seen := covered.seen_perform event
  used := covered.used_perform event
  distinct := distinct_perform covered.distinct (covered.fresh allowed)

theorem Covered.performAll (events : List OrderEvent) {ids : UsedIds} {node : OrderNode}
    (covered : Covered ids node) (allowed : ids.AllowsAll (usesOf services events)) :
    Covered (ids.addAll (usesOf services events)) (node.performAll services events) := by
  induction events generalizing ids node with
  | nil => exact covered
  | cons event events ih =>
      have next := @Covered.perform services node ids covered event
      rw [usesOf, List.filterMap_cons] at allowed ⊢
      cases use : event.use services with
      | none =>
          simp only [use] at allowed next ⊢
          exact ih (next (by simp)) allowed
      | some used =>
          simp only [use] at allowed next ⊢
          exact ih (next (by simpa using allowed.1)) allowed.2

/-- In every run in which no local order uses an announced id or that of another local order,
and no id is announced again once it was forgotten, the ids of the book are distinct, so that
all searches for an id find the order of `get_order`, and another such announcement changes
none of the orders.  All announced ids are remembered while they are at most 100000.  While the
book has room, bringing an order whose id is taken always makes two orders share it. -/
theorem order_ids_distinct (services : OrderServices) (events : List OrderEvent)
    (allowed : UsedIds.none.AllowsAll (usesOf services events)) :
    let node := OrderNode.new.performAll services events
    let ids := UsedIds.none.addAll (usesOf services events)
    node.book.Distinct ∧
    (∀ id status, (node.book.find? fun order => order.key == id && order.status == status) =
      (node.book.getOrder id).filter fun order => order.status == status) ∧
    (∀ clock payload, (∀ use ∈ (OrderEvent.dexOrder clock payload).use services,
        ids.Allows use) →
      ∀ order ∈ node.book, ∀ later ∈ (node.perform services (.dexOrder clock payload)).book,
        later.orderId = order.orderId → later = order) ∧
    (ids.announced.card ≤ maxSeenOrders → node.seenOrders = ids.announced) ∧
    ∀ (other : OrderNode) (event : OrderEvent), other.book.Distinct →
      other.book.length < SwapOrderBook.maxOrders →
      ((other.perform services event).book.Distinct ↔ Fresh services other event) := by
  have start : Covered UsedIds.none OrderNode.new :=
    ⟨rfl, by simp [OrderNode.new], List.nodup_nil⟩
  have covered := start.performAll events allowed
  refine ⟨covered.distinct, covered.distinct.find_eq_getOrder, ?_, ?_, ?_⟩
  · intro clock payload allows order member later there same
    exact dexOrder_keeps covered.distinct (covered.fresh allows) member there same
  · intro few
    rw [covered.seen]
    exact UsedIds.seen_addAll _ few
  · intro other event before room
    exact distinct_perform_iff before room event

namespace Sample

/-- Announcements whose payload is their id, with terms of a peer's choice. -/
def announcement (payload : Bytes) : Option OrderAnnouncement :=
  if sized : payload.length = 32 then
    some {
      orderId := ⟨payload, sized⟩, makerAddress := "refund", makerBtcAddress := none,
      vtrAmount := 1, targetAsset := "BTC", targetAmount := 900, hashLock := none,
      expiry := 4000000000 }
  else none

def fixed : OrderServices where
  crypto := Swap.crypto
  decodeBase58 := Swap.decodeBase58
  isBtcAddress _ := true
  trim text := text
  parseAnnouncement := announcement

def request : PlaceOrderRequest where
  makerAddress := "recipient"
  makerBtcAddress := none
  offerAmountSatoshis := 1000
  requestAmountSatoshis := 50
  requestAsset := "BTC"
  expirySecs := 0

def placedId : Hash :=
  (SwapOrder.new Swap.crypto "recipient" 1000 "BTC" 50 defaultHtlcLocktime 1700000000).orderId

def placing : OrderEvent :=
  .placeDexOrder true 1700000000 (Swap.crypto.sha256 []) (.ok ()) request

def announcing (id : Hash) : OrderEvent := .dexOrder 1700000001 id.toList

def otherId : Hash := List.Vector.replicate 32 1

def recovered : SwapOrder :=
  { SwapOrder.new Swap.crypto "recipient" 1000 "BTC" 50 defaultHtlcLocktime 1700000000 with
    orderId := List.Vector.replicate 32 2 }

/-- A local order, an order that a peer announces twice, one that is recovered, and another
announcement. -/
def repeated : List OrderEvent :=
  [placing, announcing zeroHash, announcing zeroHash, .restoreOrder 1700000002 recovered,
    announcing otherId]

/-- What a taker is asked to pay for how much. -/
def terms (order : SwapOrder) : String × UInt64 × UInt64 :=
  (order.makerAddress, order.vtrAmount, order.targetAmount)

end Sample

theorem order_ids_distinct_of_repeated :
    UsedIds.none.AllowsAll (usesOf Sample.fixed Sample.repeated) ∧
      (OrderNode.new.performAll Sample.fixed Sample.repeated).book.length = 4 ∧
      (OrderNode.new.performAll Sample.fixed Sample.repeated).book.Distinct := by
  refine ⟨by decide +kernel, by decide +kernel, ?_⟩
  exact (order_ids_distinct Sample.fixed Sample.repeated (by decide +kernel)).1

/-- A peer announces an order under the id of a local one.  While the local order is being
funded, the id still stands for it in one search and for the peer's terms in another. -/
theorem announced_under_local_id :
    let node := OrderNode.new.performAll Sample.fixed
      [Sample.placing, Sample.announcing Sample.placedId,
        .beginFunding (hexEncode Sample.placedId.toList)]
    ¬node.book.Distinct ∧
      (node.book.getOrder (hexEncode Sample.placedId.toList)).map Sample.terms =
        some ("recipient", 1000, 50) ∧
      (node.book.beginFunding (hexEncode Sample.placedId.toList)).1.map Sample.terms =
        some ("refund", 1, 900) := by
  decide +kernel

end OrderNode

end Vtorrent
