import TradingEngine.Machinery.Run
import TradingEngine.Order.OrderManager

/-!
# Order/OpenOrders — the open orders the manager reports against the exchange's

`OrderTracking` pairs the manager with the last status the exchange gave to each order.  Every
update is followed by its database task.  The manager reports the orders stored as `NEW`, reads a
status it does not know as `NEW`, and takes a canceled order off its list through the id in the
saved copy.  `openOrders_tracked_iff` says on which histories this agrees with the exchange
throughout.
-/

namespace TradingEngine

namespace OrderManager

variable (m : OrderManager)

/-- `SavableObject::load_objects_map`: the orders of the database by their ids. -/
def loadObjectsMap (orders : List Order) : OrderMap :=
  (orders.map fun o => (⟨o.orderId, o⟩ : Sigma fun _ : OrderId => Order)).toAList

/-- `handle_update_order` followed by its database task. -/
def settle (order : Order) : OrderManager :=
  (m.handleUpdateOrder order).1.updateOrderInDb (m.handleUpdateOrder order).2

/-- The order `place_on_exchange` reports when the response has a negative code. -/
def rejectedOrder (order : Order) (error : OrderError) (now : ℕ) : Order :=
  { order with status := .rejected, error := error, lastUpdated := now }

/-- What the open orders are, by lookup. -/
theorem mem_getOpenOrders {id : OrderId} :
    id ∈ m.getOpenOrders ↔ ∃ o, m.orderList.lookup id = some o ∧ o.status = .new := by
  simp only [getOpenOrders, List.mem_map, List.mem_filter, decide_eq_true_eq]
  constructor
  · rintro ⟨⟨i, o⟩, ⟨hmem, hstatus⟩, rfl⟩
    exact ⟨o, AList.mem_lookup_iff.mpr hmem, hstatus⟩
  · rintro ⟨o, hlookup, hstatus⟩
    exact ⟨⟨id, o⟩, ⟨AList.mem_lookup_iff.mp hlookup, hstatus⟩, rfl⟩

/-- The list after an update that neither cancels nor rejects. -/
theorem settle_kept {order : Order} (hrej : (m.handleUpdateOrder order).2.status ≠ .rejected)
    (hcan : (m.handleUpdateOrder order).2.status ≠ .canceled) :
    (m.settle order).orderList = (m.handleUpdateOrder order).1.orderList := by
  rw [settle, updateOrderInDb_orderList, if_neg hrej, if_neg hcan]

/-- The list after a rejection. -/
theorem settle_rejected {order : Order} (h : order.status = .rejected) :
    (m.settle order).orderList =
      (m.handleUpdateOrder order).1.orderList.erase order.orderId := by
  have hmerged : (m.handleUpdateOrder order).2 = order :=
    m.handleUpdateOrder_of_not_isFill (by simp [Order.isFill, h])
  rw [settle, updateOrderInDb_orderList, hmerged, if_pos h]

/-- The list after a cancellation: the id erased is the one in the saved copy. -/
theorem settle_canceled {order : Order} (h : order.status = .canceled) :
    (m.settle order).orderList =
      (m.handleUpdateOrder order).1.orderList.erase (m.savedOrder order.orderId).orderId := by
  have hmerged : (m.handleUpdateOrder order).2 = order :=
    m.handleUpdateOrder_of_not_isFill (by simp [Order.isFill, h])
  have hsaved : (m.handleUpdateOrder order).1.savedOrder order.orderId =
      m.savedOrder order.orderId := by
    rw [savedOrder, savedOrder, handleUpdateOrder_orderDbCache]
  rw [settle, updateOrderInDb_orderList, hmerged, if_neg (by rw [h]; decide), if_pos h, hsaved]

/-- Every order is listed under its own id. -/
def ListedUnderOwnId : Prop := ∀ id order, m.orderList.lookup id = some order → order.orderId = id

variable {m}

theorem ListedUnderOwnId.handleUpdateOrder (h : m.ListedUnderOwnId) (order : Order) :
    (m.handleUpdateOrder order).1.ListedUnderOwnId := by
  intro id o hlookup
  by_cases hid : id = order.orderId
  · rw [hid, lookup_handleUpdateOrder, Option.some.injEq] at hlookup
    rw [← hlookup, hid, handleUpdateOrder_orderId]
  · rw [lookup_handleUpdateOrder_ne _ hid] at hlookup
    exact h id o hlookup

theorem ListedUnderOwnId.getOrderById (h : m.ListedUnderOwnId) (id : OrderId) :
    (m.getOrderById id).1.ListedUnderOwnId := by
  rw [OrderManager.getOrderById]
  split
  · exact h
  · intro i o hlookup
    by_cases hi : i = id
    · rw [hi, AList.lookup_insert, Option.some.injEq] at hlookup
      rw [← hlookup, hi]
    · rw [AList.lookup_insert_ne hi] at hlookup
      exact h i o hlookup

theorem ListedUnderOwnId.updateOrderInDb (h : m.ListedUnderOwnId) (order : Order) :
    (m.updateOrderInDb order).ListedUnderOwnId := by
  intro id o hlookup
  rw [updateOrderInDb_orderList] at hlookup
  split_ifs at hlookup
  · exact h id o (lookup_of_lookup_erase hlookup)
  · exact h id o (lookup_of_lookup_erase hlookup)
  · exact h id o hlookup

theorem ListedUnderOwnId.settle (h : m.ListedUnderOwnId) (order : Order) :
    (m.settle order).ListedUnderOwnId := (h.handleUpdateOrder order).updateOrderInDb _

theorem listedUnderOwnId_loadObjectsMap (orders : List Order) :
    (OrderManager.init (loadObjectsMap orders)).ListedUnderOwnId := by
  intro id o hlookup
  rw [OrderManager.init, loadObjectsMap, AList.lookup_to_alist] at hlookup
  obtain ⟨o', -, heq⟩ := List.mem_map.mp (List.of_mem_dlookup hlookup)
  cases heq
  rfl

end OrderManager

/-! ## The manager and the exchange -/

/-- The manager, with the last status the exchange gave to each order. -/
structure OrderTracking where
  manager : OrderManager
  last : OrderId → Option String

/-- A message with any execution status, a place response that rejects, or `set_cancel_order`, which
is called for orders the exchange no longer lists. -/
inductive TrackingEvent
  | message (update : OrderTradeUpdate)
  | placeRejected (order : Order) (error : OrderError) (now : ℕ)
  | setCancel (id : OrderId)

namespace OrderTracking

open OrderManager

/-- After `init`, an order was last heard of with the status it is saved with. -/
def start (orders : List Order) : OrderTracking where
  manager := .init (loadObjectsMap orders)
  last id := ((loadObjectsMap orders).lookup id).map fun o => o.status.name

/-- An update with its database task, and the status it was sent with. -/
def settle (s : OrderTracking) (order : Order) (x : String) : OrderTracking where
  manager := s.manager.settle order
  last := Function.update s.last order.orderId (some x)

def step (s : OrderTracking) : TrackingEvent → OrderTracking
  | .message u => if u.orderId = 0 then s else s.settle u.toOrder u.X
  | .placeRejected order error now => s.settle (rejectedOrder order error now) "REJECTED"
  | .setCancel id =>
    { manager := (s.manager.setCancelOrder id).elim s.manager s.manager.settle
      last := Function.update s.last id (some "CANCELED") }

variable (s : OrderTracking) (i : OrderId)

/-- The order is live on the exchange. -/
def Live : Prop := s.last i = some "NEW" ∨ s.last i = some "PARTIALLY_FILLED"

/-- The exchange has canceled or rejected the order. -/
def Gone : Prop := s.last i = some "CANCELED" ∨ s.last i = some "REJECTED"

/-- What is claimed of one order. -/
def TrackedAt : Prop :=
  (i ∈ s.manager.getOpenOrders ↔ s.Live i) ∧ (s.Gone i → i ∉ s.manager.orderList)

/-- **What is claimed of a state**: the open orders are those live on the exchange, and the orders
that are gone are off the list. -/
def Tracked : Prop := ∀ i, s.TrackedAt i

/-- The saved copy under an id holds the order of that id. -/
def HasOwnCopy : Prop := (s.manager.savedOrder i).orderId = i

/-- **The condition.**  The status of a message is `NEW` or `FILLED`, or it is `CANCELED` and the
order has its own saved copy; and likewise for a listed order given to `set_cancel_order`. -/
def Handled : TrackingEvent → Prop
  | .message u =>
    u.orderId ≠ 0 → u.X = "NEW" ∨ u.X = "FILLED" ∨ (u.X = "CANCELED" ∧ s.HasOwnCopy u.orderId)
  | .placeRejected _ _ _ => True
  | .setCancel id => id ∈ s.manager.orderList → s.HasOwnCopy id

/-- No order is loaded that is partially filled, canceled or rejected. -/
def LoadedOk (orders : List Order) : Prop :=
  ∀ i, ∀ o ∈ (loadObjectsMap orders).lookup i,
    o.status ≠ .partiallyFilled ∧ o.status ≠ .canceled ∧ o.status ≠ .rejected

variable {s} {i : OrderId}

/-- What is stored under an id decides what is claimed of it. -/
theorem trackedAt_some {o : Order} (h : s.manager.orderList.lookup i = some o) :
    s.TrackedAt i ↔ (o.status = .new ↔ s.Live i) ∧ ¬ s.Gone i := by
  have hmem : i ∈ s.manager.orderList := AList.lookup_isSome.mp (by rw [h]; rfl)
  have hopen : i ∈ s.manager.getOpenOrders ↔ o.status = .new := by
    rw [mem_getOpenOrders, h]
    exact ⟨fun ⟨o', ho', hnew⟩ => (Option.some.inj ho') ▸ hnew, fun hnew => ⟨o, rfl, hnew⟩⟩
  rw [TrackedAt, hopen]
  exact and_congr_right fun _ => ⟨fun hg hgone => hg hgone hmem, fun hg hgone => absurd hgone hg⟩

theorem trackedAt_none (h : s.manager.orderList.lookup i = none) :
    s.TrackedAt i ↔ ¬ s.Live i := by
  have hmem : i ∉ s.manager.orderList := AList.lookup_eq_none.mp h
  have hopen : i ∉ s.manager.getOpenOrders := by
    rw [mem_getOpenOrders, h]
    rintro ⟨o, ho, -⟩
    exact Option.some_ne_none o ho.symm
  rw [TrackedAt]
  exact ⟨fun ht hlive => hopen (ht.1.mpr hlive),
    fun hlive => ⟨iff_of_false hopen hlive, fun _ => hmem⟩⟩

/-- **The frame rule**: where a step touches one order only, it is that order that decides. -/
theorem tracked_iff_of_frame {s' : OrderTracking} {j : OrderId} {x : Option String}
    (h : s.Tracked) (hlast : s'.last = Function.update s.last j x)
    (hframe : ∀ i, i ≠ j → s'.manager.orderList.lookup i = s.manager.orderList.lookup i) :
    s'.Tracked ↔ s'.TrackedAt j := by
  refine ⟨fun ht => ht j, fun hj i => ?_⟩
  by_cases hij : i = j
  · exact hij ▸ hj
  · have hi := h i
    have hlast' : s'.last i = s.last i := by rw [hlast, Function.update_of_ne hij]
    have hopen : i ∈ s'.manager.getOpenOrders ↔ i ∈ s.manager.getOpenOrders := by
      rw [mem_getOpenOrders, mem_getOpenOrders, hframe i hij]
    have hmem : i ∈ s'.manager.orderList ↔ i ∈ s.manager.orderList := by
      rw [← AList.lookup_isSome, ← AList.lookup_isSome, hframe i hij]
    rwa [TrackedAt, Live, Gone, hlast', hopen, hmem]

/-! ## One step -/

@[simp] theorem settle_last_self (order : Order) (x : String) :
    (s.settle order x).last order.orderId = some x := Function.update_self _ _ _

/-- After an update that stays on the list, the claim compares the stored status with the
exchange's. -/
theorem tracked_settle_kept (h : s.Tracked) {order : Order} {x : String}
    (hrej : (s.manager.handleUpdateOrder order).2.status ≠ .rejected)
    (hcan : (s.manager.handleUpdateOrder order).2.status ≠ .canceled) :
    (s.settle order x).Tracked ↔
      ((s.manager.handleUpdateOrder order).2.status = .new ↔ x = "NEW" ∨ x = "PARTIALLY_FILLED") ∧
        ¬ (x = "CANCELED" ∨ x = "REJECTED") := by
  have hlist := s.manager.settle_kept hrej hcan
  have hlookup : (s.settle order x).manager.orderList.lookup order.orderId =
      some (s.manager.handleUpdateOrder order).2 :=
    hlist ▸ s.manager.lookup_handleUpdateOrder order
  rw [tracked_iff_of_frame h rfl fun i hi => ?_, trackedAt_some hlookup]
  · simp only [Live, Gone, settle_last_self, Option.some.injEq]
  · exact hlist ▸ s.manager.lookup_handleUpdateOrder_ne hi

/-- An order off the list is tracked if the exchange has ended it. -/
theorem tracked_of_erased (h : s.Tracked) {order : Order} {x : String}
    (hx : ¬ (x = "NEW" ∨ x = "PARTIALLY_FILLED"))
    (hlist : (s.manager.settle order).orderList =
      (s.manager.handleUpdateOrder order).1.orderList.erase order.orderId) :
    (s.settle order x).Tracked := by
  have hnone : (s.settle order x).manager.orderList.lookup order.orderId = none := by
    rw [settle, hlist]
    exact AList.lookup_erase _ _
  rw [tracked_iff_of_frame h rfl fun i hi => ?_, trackedAt_none hnone]
  · simpa only [Live, settle_last_self, Option.some.injEq] using hx
  · rw [settle, hlist, AList.lookup_erase_ne hi]
    exact s.manager.lookup_handleUpdateOrder_ne hi

/-- A rejected order is taken off the list. -/
theorem tracked_settle_rejected (h : s.Tracked) {order : Order} (hrej : order.status = .rejected) :
    (s.settle order "REJECTED").Tracked := by
  have hlist := s.manager.settle_rejected hrej
  exact tracked_of_erased h (by decide) hlist

/-- **A canceled order is taken off the list exactly when it has its own saved copy.** -/
theorem tracked_settle_canceled (h : s.Tracked) {order : Order} (hcan : order.status = .canceled) :
    (s.settle order "CANCELED").Tracked ↔
      s.HasOwnCopy order.orderId := by
  have hlist := s.manager.settle_canceled hcan
  constructor
  · intro ht
    by_contra hcopy
    -- another id is erased, so the canceled order is still there
    have hlookup : (s.settle order "CANCELED").manager.orderList.lookup order.orderId =
        some (s.manager.handleUpdateOrder order).2 := by
      rw [settle, hlist, AList.lookup_erase_ne (Ne.symm hcopy)]
      exact s.manager.lookup_handleUpdateOrder order
    exact ((trackedAt_some hlookup).mp (ht order.orderId)).2 (Or.inl (settle_last_self order _))
  · intro hcopy
    rw [HasOwnCopy] at hcopy
    rw [hcopy] at hlist
    exact tracked_of_erased h (by decide) hlist

/-- A fill is stored with a fill status, so it is not reported. -/
theorem status_handleUpdateOrder_of_isFill {m : OrderManager} {order : Order}
    (h : order.isFill = true) :
    (m.handleUpdateOrder order).2.status = .filled ∨
      (m.handleUpdateOrder order).2.status = .partiallyFilled :=
  of_decide_eq_true (mergeUpdate_isFill h _)

/-- A fill: tracked exactly when it is the last one. -/
theorem tracked_fill (h : s.Tracked) {order : Order} (hfill : order.isFill = true) {x : String} :
    (s.settle order x).Tracked ↔
      ¬ (x = "NEW" ∨ x = "PARTIALLY_FILLED") ∧ ¬ (x = "CANCELED" ∨ x = "REJECTED") := by
  have hstatus := status_handleUpdateOrder_of_isFill (m := s.manager) hfill
  rw [tracked_settle_kept h]
  · rcases hstatus with hs | hs <;> simp [hs]
  · rcases hstatus with hs | hs <;> simp [hs]
  · rcases hstatus with hs | hs <;> simp [hs]

/-- An order stored as `NEW`: tracked exactly when the exchange calls it live. -/
theorem tracked_new (h : s.Tracked) {order : Order} (hnew : order.status = .new) {x : String} :
    (s.settle order x).Tracked ↔ x = "NEW" ∨ x = "PARTIALLY_FILLED" := by
  have hmerged : (s.manager.handleUpdateOrder order).2 = order :=
    s.manager.handleUpdateOrder_of_not_isFill (by simp [Order.isFill, hnew])
  rw [tracked_settle_kept h (by rw [hmerged, hnew]; decide) (by rw [hmerged, hnew]; decide),
    hmerged, hnew, iff_true_left rfl]
  refine ⟨fun hx => hx.1, fun hx => ⟨hx, ?_⟩⟩
  rcases hx with rfl | rfl <;> decide

/-- **A message** is tracked exactly when it is handled. -/
theorem tracked_message (h : s.Tracked) (u : OrderTradeUpdate) :
    (s.step (.message u)).Tracked ↔ s.Handled (.message u) := by
  rw [step, Handled]
  by_cases hid : u.orderId = 0
  · rw [if_pos hid]
    exact iff_of_true h fun hne => absurd hid hne
  · rw [if_neg hid, forall_prop_of_true hid]
    by_cases hnew : u.X = "NEW"
    · rw [tracked_new h (by rw [u.toOrder_new hnew])]
      exact iff_of_true (Or.inl hnew) (Or.inl hnew)
    by_cases hfilled : u.X = "FILLED"
    · rw [tracked_fill h (by rw [u.toOrder_filled hfilled]; rfl), hfilled]
      exact iff_of_true (by decide) (Or.inr (Or.inl rfl))
    by_cases hpartial : u.X = "PARTIALLY_FILLED"
    · rw [tracked_fill h (by rw [u.toOrder_partiallyFilled hpartial]; rfl), hpartial]
      simp
    by_cases hcanceled : u.X = "CANCELED"
    · rw [hcanceled, tracked_settle_canceled h (by rw [u.toOrder_canceled hcanceled]),
        u.toOrder_orderId]
      simp
    · -- any other status leaves the order `NEW`
      have hbase : u.toOrder.status = .new := by
        simp [OrderTradeUpdate.toOrder, hnew, hfilled, hpartial, hcanceled,
          OrderTradeUpdate.baseOrder]
      rw [tracked_new h hbase]
      exact iff_of_false (by simp [hnew, hpartial]) (by simp [hnew, hfilled, hcanceled])

/-- `set_cancel_order`. -/
theorem tracked_setCancel (h : s.Tracked) (hown : s.manager.ListedUnderOwnId) (id : OrderId) :
    (s.step (.setCancel id)).Tracked ↔ s.Handled (.setCancel id) := by
  rw [step, Handled, setCancelOrder]
  cases hlookup : s.manager.orderList.lookup id with
  | none =>
    -- nothing is listed under the id, and nothing changes
    have hnone : ({ s with last := Function.update s.last id (some "CANCELED") } :
        OrderTracking).manager.orderList.lookup id = none := hlookup
    refine iff_of_true ?_ fun hmem => absurd hmem (AList.lookup_eq_none.mp hlookup)
    refine Iff.mpr (tracked_iff_of_frame h (j := id) (x := some "CANCELED") ?_ ?_) ?_
    · rfl
    · exact fun i _ => rfl
    · exact (trackedAt_none hnone).mpr (by simp [Live])
  | some o =>
    have hid : o.orderId = id := hown id o hlookup
    have hmem : id ∈ s.manager.orderList := AList.lookup_isSome.mp (by rw [hlookup]; rfl)
    rw [forall_prop_of_true hmem]
    subst hid
    have hcanceled : ({ o with status := .canceled } : Order).status = .canceled := rfl
    exact tracked_settle_canceled h hcanceled

/-- **One step** keeps the claim exactly when it is handled. -/
theorem tracked_step (h : s.Tracked) (hown : s.manager.ListedUnderOwnId) (e : TrackingEvent) :
    (s.step e).Tracked ↔ s.Handled e := by
  cases e with
  | message u => exact tracked_message h u
  | placeRejected order error now => exact iff_of_true (tracked_settle_rejected h rfl) trivial
  | setCancel id => exact tracked_setCancel h hown id

/-- Orders stay listed under their own ids. -/
theorem listedUnderOwnId_step (hown : s.manager.ListedUnderOwnId) (e : TrackingEvent) :
    (s.step e).manager.ListedUnderOwnId := by
  cases e with
  | message u =>
    rw [step]
    split
    · exact hown
    · exact hown.settle _
  | placeRejected order error now => exact hown.settle _
  | setCancel id =>
    rw [step]
    cases s.manager.setCancelOrder id with
    | none => exact hown
    | some o => exact hown.settle o

/-- The loaded orders are tracked exactly when each is live, filled or not yet sent. -/
theorem tracked_start (orders : List Order) : (start orders).Tracked ↔ LoadedOk orders := by
  refine forall_congr' fun i => ?_
  cases hlookup : (loadObjectsMap orders).lookup i with
  | none =>
    refine iff_of_true ((trackedAt_none hlookup).mpr ?_) (by simp)
    simp [Live, start, hlookup]
  | some o =>
    rw [trackedAt_some hlookup]
    simp only [Live, Gone, start, hlookup, Option.map_some, Option.some.injEq, Option.mem_def,
      forall_eq']
    cases o.status <;> decide

/-! ## Every run -/

/-- **Open-order tracking, exactly.**  From any loaded orders, through any messages, rejections and
`set_cancel_order` calls: the manager agrees with the exchange in every state if and only if the
loaded orders were fit and every step was handled. -/
theorem openOrders_tracked_iff (orders : List Order) (es : List TrackingEvent) :
    ((start orders).Tracked ∧
        Run.Along step (fun s e => (s.step e).Tracked) (start orders) es) ↔
      LoadedOk orders ∧ Run.Along step Handled (start orders) es := by
  rw [← tracked_start]
  refine and_congr_right fun hstart => ?_
  exact Run.along_iff_of_invariant (I := fun s => s.Tracked ∧ s.manager.ListedUnderOwnId)
    (L := fun _ _ => True)
    (fun s e hI _ hQ => ⟨(tracked_step hI.1 hI.2 e).mpr hQ, listedUnderOwnId_step hI.2 e⟩)
    (fun s e hI _ => tracked_step hI.1 hI.2 e)
    ⟨hstart, listedUnderOwnId_loadObjectsMap orders⟩ (Run.along_of_forall (fun _ _ => trivial) _ es)

/-- An order that expires, as a `GTX` order does when it would take. -/
def expiredRun : List TrackingEvent :=
  [.message { orderId := 7, S := "BUY", q := 2, X := "NEW" },
    .message { orderId := 7, S := "BUY", q := 2, X := "EXPIRED" }]

/-- **An expired order is still reported open.** -/
theorem expiredRun_not_tracked :
    7 ∈ (Run.exec step (start []) expiredRun).manager.getOpenOrders ∧
      ¬ ((start []).Tracked ∧
        Run.Along step (fun s e => (s.step e).Tracked) (start []) expiredRun) := by
  have hopen : 7 ∈ (Run.exec step (start []) expiredRun).manager.getOpenOrders := by
    decide +kernel
  refine ⟨hopen, fun h => ?_⟩
  have hlive : (Run.exec step (start []) expiredRun).Live 7 := (h.2.2.1 7).1.mp hopen
  rw [Live] at hlive
  exact absurd hlive (by decide +kernel)

end OrderTracking

end TradingEngine
