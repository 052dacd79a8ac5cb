import Mathlib.Data.List.AList
import TradingEngine.Order.Order

/-!
# Order/OrderManager — every order the engine knows of

`OrderManager` keeps the latest state of each order.  `handle_update_order` adds the totals stored
so far to a fill, stores the order, informs the strategies and posts the database task;
`update_order_in_db`, on another event base, keeps the saved copies and takes an order that is gone
off the list.  Maps are association lists without duplicate keys.
-/

namespace TradingEngine

/-- `std::unordered_map<OrderId, Order>`. -/
abbrev OrderMap := AList fun _ : OrderId => Order

/-- `OrderManager`.  Of a `SavableObject` the cache keeps the object it holds. -/
structure OrderManager where
  orderList : OrderMap := ∅
  orderDbCache : OrderMap := ∅

namespace OrderManager

variable (m : OrderManager)

/-- `init`: the orders found in the database. -/
def init (loaded : OrderMap) : OrderManager := { orderList := loaded }

def isValidOrder (id : OrderId) : Bool := id ∈ m.orderList

def getAllOrders : List Order := m.orderList.entries.map (·.2)

def getOpenOrders : List OrderId :=
  (m.orderList.entries.filter fun entry => entry.2.status = .new).map (·.1)

/-- The stored order, and the list with it: an unknown one is stored first. -/
def getOrderById (id : OrderId) : OrderManager × Order :=
  match m.orderList.lookup id with
  | some order => (m, order)
  | none =>
    let newOrder : Order := { orderId := id }
    ({ m with orderList := m.orderList.insert id newOrder }, newOrder)

/-- The output data of a single fill. -/
def fillOutput (order : Order) : Order :=
  match order.side with
  | .buy =>
    { order with
      outputQuantity := order.filledQuantity - order.fee
      volumnInQuoteCurrency := order.filledQuantity * order.filledPrice }
  | .sell =>
    { order with
      outputQuantity := order.filledQuantity * order.filledPrice - order.fee
      volumnInQuoteCurrency := order.filledQuantity * order.filledPrice - order.fee }

/-- Add the totals stored so far. -/
def addTotals (order current : Order) : Order :=
  { order with
    filledQuantity := order.filledQuantity + current.filledQuantity
    fee := order.fee + current.fee
    outputQuantity := order.outputQuantity + current.outputQuantity
    volumnInQuoteCurrency := order.volumnInQuoteCurrency + current.volumnInQuoteCurrency }

/-- If all of the quantity is filled, the status is `FILLED`. -/
def closeIfComplete (order : Order) : Order :=
  if order.filledQuantity = order.quantity then { order with status := .filled } else order

/-- What `handle_update_order` makes of an order: only a fill reads the stored one. -/
def mergeUpdate (order current : Order) : Order :=
  if order.isFill then closeIfComplete (addTotals (fillOutput order) current) else order

/-- `handle_update_order`: the manager, and the order that is stored, given to the callbacks and
posted to the database task. -/
def handleUpdateOrder (order : Order) : OrderManager × Order :=
  let found := m.getOrderById order.orderId
  let merged := mergeUpdate order found.2
  ({ found.1 with orderList := found.1.orderList.insert order.orderId merged }, merged)

/-- The callbacks are invoked for every status but `NOT_AVAILABLE`. -/
def informs (order : Order) : Bool :=
  order.status = .new ∨ order.status = .canceled ∨ order.status = .rejected ∨
    order.status = .partiallyFilled ∨ order.status = .filled

/-- The saved copy `update_order_in_db` works on; a new one holds an order without an id. -/
def savedOrder (id : OrderId) : Order := (m.orderDbCache.lookup id).getD {}

/-- The cache with an entry for the order. -/
def withSaved (id : OrderId) : OrderManager :=
  if id ∈ m.orderDbCache then m else { m with orderDbCache := m.orderDbCache.insert id {} }

def updateOrderInDb (order : Order) : OrderManager :=
  if order.status = .rejected then
    { m with orderList := m.orderList.erase order.orderId }
  else
    let cached := m.withSaved order.orderId
    if order.status = .canceled then
      -- the id is the one inside the saved copy
      let id := (cached.savedOrder order.orderId).orderId
      { orderDbCache := cached.orderDbCache.erase id, orderList := cached.orderList.erase id }
    else
      let saved := { cached with orderDbCache := cached.orderDbCache.insert order.orderId order }
      if order.status = .filled then
        { saved with orderDbCache := saved.orderDbCache.erase order.orderId }
      else saved

/-- The order `set_cancel_order` passes to `update_order`. -/
def setCancelOrder (id : OrderId) : Option Order :=
  (m.orderList.lookup id).map fun order => { order with status := .canceled }

/-! ## What the operations do to the list -/

/-- What is left after an erasure was there before. -/
theorem lookup_of_lookup_erase {β : Type} {map : AList fun _ : OrderId => β} {id i : OrderId}
    {value : β} (h : (map.erase id).lookup i = some value) : map.lookup i = some value := by
  by_cases hi : i = id
  · rw [hi, AList.lookup_erase] at h
    exact absurd h.symm (Option.some_ne_none value)
  · rwa [AList.lookup_erase_ne hi] at h

@[simp] theorem getOrderById_orderDbCache (id : OrderId) :
    (m.getOrderById id).1.orderDbCache = m.orderDbCache := by
  rw [getOrderById]
  split <;> rfl

theorem lookup_getOrderById_ne {id i : OrderId} (h : i ≠ id) :
    (m.getOrderById id).1.orderList.lookup i = m.orderList.lookup i := by
  rw [getOrderById]
  split
  · rfl
  · exact AList.lookup_insert_ne h

theorem getOrderById_of_lookup {id : OrderId} {order : Order}
    (h : m.orderList.lookup id = some order) : m.getOrderById id = (m, order) := by
  rw [getOrderById, h]

@[simp] theorem handleUpdateOrder_orderDbCache (order : Order) :
    (m.handleUpdateOrder order).1.orderDbCache = m.orderDbCache :=
  m.getOrderById_orderDbCache order.orderId

/-- **An update is stored under its id.** -/
theorem lookup_handleUpdateOrder (order : Order) :
    (m.handleUpdateOrder order).1.orderList.lookup order.orderId =
      some (m.handleUpdateOrder order).2 := AList.lookup_insert _

/-- **An update leaves the other orders alone.** -/
theorem lookup_handleUpdateOrder_ne {order : Order} {i : OrderId} (h : i ≠ order.orderId) :
    (m.handleUpdateOrder order).1.orderList.lookup i = m.orderList.lookup i := by
  rw [handleUpdateOrder]
  exact (AList.lookup_insert_ne h).trans (m.lookup_getOrderById_ne h)

/-- What `mergeUpdate` keeps of an order. -/
@[simp] theorem mergeUpdate_orderId (order current : Order) :
    (mergeUpdate order current).orderId = order.orderId := by
  rw [mergeUpdate]
  split
  · rw [closeIfComplete]
    split <;> cases hside : order.side <;> simp [addTotals, fillOutput, hside]
  · rfl

/-- An order that is no fill is passed on as it is. -/
theorem mergeUpdate_of_not_isFill {order : Order} (h : order.isFill = false) (current : Order) :
    mergeUpdate order current = order := by
  rw [mergeUpdate, h]
  rfl

/-- A fill is passed on as a fill, complete or not. -/
theorem mergeUpdate_isFill {order : Order} (h : order.isFill = true) (current : Order) :
    (mergeUpdate order current).isFill = true := by
  rw [mergeUpdate, if_pos h, closeIfComplete]
  split
  · rfl
  · cases hside : order.side <;> simpa [addTotals, fillOutput, hside, Order.isFill] using h

/-- What a fill keeps of the message, and when it is passed on as the last one. -/
theorem mergeUpdate_of_isFill {order : Order} (h : order.isFill = true) (current : Order) :
    (mergeUpdate order current).filledPrice = order.filledPrice ∧
      (mergeUpdate order current).side = order.side ∧
      (mergeUpdate order current).status =
        if (mergeUpdate order current).filledQuantity = order.quantity then .filled
        else order.status := by
  rw [mergeUpdate, if_pos h, closeIfComplete]
  cases hside : order.side <;> simp only [addTotals, fillOutput, hside] <;> split_ifs <;>
    exact ⟨rfl, rfl, rfl⟩

theorem handleUpdateOrder_of_not_isFill {order : Order} (h : order.isFill = false) :
    (m.handleUpdateOrder order).2 = order := mergeUpdate_of_not_isFill h _

@[simp] theorem handleUpdateOrder_orderId (order : Order) :
    (m.handleUpdateOrder order).2.orderId = order.orderId := mergeUpdate_orderId _ _

@[simp] theorem withSaved_orderList (id : OrderId) :
    (m.withSaved id).orderList = m.orderList := by
  rw [withSaved]
  split <;> rfl

/-- Creating the entry does not change what is read from it. -/
theorem savedOrder_withSaved (id i : OrderId) :
    (m.withSaved id).savedOrder i = m.savedOrder i := by
  rw [withSaved]
  split
  case isTrue => rfl
  case isFalse h =>
    by_cases hi : i = id
    · subst hi
      simp [savedOrder, AList.lookup_eq_none.mpr h]
    · simp [savedOrder, AList.lookup_insert_ne hi]

/-- **The list after a database task**: a rejected order is taken off it, a canceled one through its
saved copy, and no other status touches it. -/
theorem updateOrderInDb_orderList (order : Order) :
    (m.updateOrderInDb order).orderList =
      if order.status = .rejected then m.orderList.erase order.orderId
      else if order.status = .canceled then
        m.orderList.erase (m.savedOrder order.orderId).orderId
      else m.orderList := by
  rw [updateOrderInDb]
  split_ifs <;> simp [savedOrder_withSaved]

/-- A saved copy holds the order it is saved under, or none yet. -/
def SavedUnderOwnId : Prop :=
  ∀ id order, m.orderDbCache.lookup id = some order → order.orderId = id ∨ order.orderId = 0

variable {m}

theorem SavedUnderOwnId.savedOrder (h : m.SavedUnderOwnId) (id : OrderId) :
    (m.savedOrder id).orderId = id ∨ (m.savedOrder id).orderId = 0 := by
  rw [OrderManager.savedOrder]
  cases hlookup : m.orderDbCache.lookup id with
  | none => exact Or.inr rfl
  | some order => exact h id order hlookup

theorem SavedUnderOwnId.insert (h : m.SavedUnderOwnId) {id : OrderId} {order : Order}
    (horder : order.orderId = id ∨ order.orderId = 0) :
    SavedUnderOwnId { m with orderDbCache := m.orderDbCache.insert id order } := by
  intro i o hlookup
  by_cases hi : i = id
  · subst hi
    rw [AList.lookup_insert, Option.some.injEq] at hlookup
    exact hlookup ▸ horder
  · rw [AList.lookup_insert_ne hi] at hlookup
    exact h i o hlookup

theorem SavedUnderOwnId.erase (h : m.SavedUnderOwnId) (id : OrderId) (list : OrderMap) :
    SavedUnderOwnId { orderDbCache := m.orderDbCache.erase id, orderList := list } := by
  intro i o hlookup
  by_cases hi : i = id
  · subst hi
    rw [AList.lookup_erase] at hlookup
    exact absurd hlookup.symm (Option.some_ne_none o)
  · rw [AList.lookup_erase_ne hi] at hlookup
    exact h i o hlookup

theorem SavedUnderOwnId.withSaved (h : m.SavedUnderOwnId) (id : OrderId) :
    (m.withSaved id).SavedUnderOwnId := by
  rw [OrderManager.withSaved]
  split
  · exact h
  · exact h.insert (Or.inr rfl)

/-- **The database tasks keep the saved copies apart.** -/
theorem SavedUnderOwnId.updateOrderInDb (h : m.SavedUnderOwnId) (order : Order) :
    (m.updateOrderInDb order).SavedUnderOwnId := by
  have hcached := h.withSaved order.orderId
  have hinsert : SavedUnderOwnId { m.withSaved order.orderId with
      orderDbCache := (m.withSaved order.orderId).orderDbCache.insert order.orderId order } :=
    hcached.insert (Or.inl rfl)
  rw [OrderManager.updateOrderInDb]
  split_ifs
  · exact h
  · exact hcached.erase _ _
  · exact hinsert.erase _ _
  · exact hinsert

end OrderManager

end TradingEngine
