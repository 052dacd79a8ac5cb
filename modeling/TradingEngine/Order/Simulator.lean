import TradingEngine.Machinery.Run
import TradingEngine.Order.OrderManager

/-!
# Order/Simulator — the life cycle of a simulated order

`SimulatorOrder` stands for an exchange: it keeps the orders that rest on each instrument, and
reports to `OrderManager::update_order`.  A cancellation is reported whether or not the order still
rests, and a fill carries the order's own price.  `lifeCycle_iff_settles` says on which histories
every order gets one `NEW`, one end at most and a fill at the right price.
-/

namespace TradingEngine

/-- `PriceUpdate`. -/
structure PriceUpdate where
  instrument : Option Instrument
  price : ℚ
  deriving DecidableEq

/-- `SimulatorOrder::get_order_list`: the resting orders of each instrument. -/
abbrev SimulatorOrderList := AList fun _ : Option Instrument => OrderMap

namespace SimulatorOrder

variable (orderList : SimulatorOrderList)

/-- `order_list[instrument]`. -/
def ordersOf (instrument : Option Instrument) : OrderMap := (orderList.lookup instrument).getD ∅

/-- The order as it rests and is reported `NEW`. -/
def placedOrder (order : Order) : Order :=
  { order with status := .new, source := { order.source with type := .simulator } }

/-- `execute_place`.  An insertion does not replace an order that is there. -/
def executePlace (order : Order) : SimulatorOrderList × List Order :=
  let order := placedOrder order
  let current := ordersOf orderList order.instrument
  let inserted :=
    if order.orderId ∈ current then current else current.insert order.orderId order
  (orderList.insert order.instrument inserted, [order])

/-- `execute_cancel`. -/
def executeCancel (order : Order) : SimulatorOrderList × List Order :=
  let current := ordersOf orderList order.instrument
  (orderList.insert order.instrument (current.erase order.orderId),
    [{ order with status := .canceled }])

/-- The price has gone strictly through the limit. -/
def Through (price : ℚ) (order : Order) : Prop :=
  (order.side = .buy ∧ price < order.price) ∨ (order.side = .sell ∧ order.price < price)

instance (price : ℚ) (order : Order) : Decidable (Through price order) :=
  inferInstanceAs (Decidable (_ ∨ _))

/-- The first loop of `execute_price_update`: the orders to fill. -/
def IsFilledBy (price : ℚ) (order : Order) : Prop :=
  match order.type with
  | .limit => Through price order
  | .market => True
  | _ => False

instance (price : ℚ) (order : Order) : Decidable (IsFilledBy price order) := by
  rw [IsFilledBy]
  cases order.type <;> infer_instance

/-- An order as it is reported filled: at its own price. -/
def filledOrder (order : Order) : Order :=
  { order with
    status := .filled
    filledPrice := order.price
    filledQuantity := order.quantity
    fee := 0 }

/-- The second loop of `execute_price_update`. -/
def fillOrders : OrderMap → List OrderId → OrderMap × List Order
  | current, [] => (current, [])
  | current, id :: ids =>
    let rest := fillOrders (current.erase id) ids
    (rest.1, filledOrder ((current.lookup id).getD {}) :: rest.2)

/-- The ids the first loop collects. -/
def filledIds (price : ℚ) (current : OrderMap) : List OrderId :=
  (current.entries.filter fun entry => IsFilledBy price entry.2).map (·.1)

/-- `execute_price_update`. -/
def executePriceUpdate (data : PriceUpdate) : SimulatorOrderList × List Order :=
  match orderList.lookup data.instrument with
  | none => (orderList, [])
  | some current =>
    let filled := fillOrders current (filledIds data.price current)
    (orderList.insert data.instrument filled.1, filled.2)

/-! ## What each task does to the resting orders -/

/-- The order that rests under an id on an instrument. -/
def resting (instrument : Option Instrument) (id : OrderId) : Option Order :=
  (ordersOf orderList instrument).lookup id

variable {orderList} {i j : Option Instrument} {id : OrderId} {order : Order} {price : ℚ}

@[simp] theorem ordersOf_insert_self (current : OrderMap) :
    ordersOf (orderList.insert i current) i = current := by
  rw [ordersOf, AList.lookup_insert, Option.getD_some]

theorem ordersOf_insert_ne (h : j ≠ i) (current : OrderMap) :
    ordersOf (orderList.insert i current) j = ordersOf orderList j := by
  rw [ordersOf, ordersOf, AList.lookup_insert_ne h]

/-- A placed order rests, where none of its id rests already. -/
theorem resting_executePlace (h : resting orderList order.instrument order.orderId = none) :
    resting (executePlace orderList order).1 i id =
      if i = order.instrument ∧ id = order.orderId then some (placedOrder order)
      else resting orderList i id := by
  have hmem : order.orderId ∉ ordersOf orderList order.instrument := AList.lookup_eq_none.mp h
  by_cases hi : i = order.instrument
  · subst hi
    simp only [resting, executePlace, placedOrder, hmem, if_false, ordersOf_insert_self, true_and]
    by_cases hid : id = order.orderId
    · rw [if_pos hid, hid, AList.lookup_insert]
    · rw [if_neg hid, AList.lookup_insert_ne hid]
  · rw [if_neg fun h => hi h.1]
    exact congrArg (AList.lookup id) (ordersOf_insert_ne hi _)

/-- A canceled order does not rest. -/
theorem resting_executeCancel : resting (executeCancel orderList order).1 i id =
    if i = order.instrument ∧ id = order.orderId then none else resting orderList i id := by
  by_cases hi : i = order.instrument
  · subst hi
    simp only [resting, executeCancel, ordersOf_insert_self, true_and]
    by_cases hid : id = order.orderId
    · rw [if_pos hid, hid, AList.lookup_erase]
    · rw [if_neg hid, AList.lookup_erase_ne hid]
  · rw [if_neg fun h => hi h.1]
    exact congrArg (AList.lookup id) (ordersOf_insert_ne hi _)

theorem mem_filledIds {current : OrderMap} :
    id ∈ filledIds price current ↔ ∃ o, current.lookup id = some o ∧ IsFilledBy price o := by
  simp only [filledIds, List.mem_map, List.mem_filter, decide_eq_true_eq]
  constructor
  · rintro ⟨⟨i, o⟩, ⟨hmem, hfilled⟩, rfl⟩
    exact ⟨o, AList.mem_lookup_iff.mpr hmem, hfilled⟩
  · rintro ⟨o, hlookup, hfilled⟩
    exact ⟨⟨id, o⟩, ⟨AList.mem_lookup_iff.mp hlookup, hfilled⟩, rfl⟩

theorem nodup_filledIds (price : ℚ) (current : OrderMap) : (filledIds price current).Nodup :=
  List.Nodup.sublist (List.filter_sublist.map _) current.nodupKeys

/-- The second loop takes the collected ids off the map. -/
theorem lookup_fillOrders (current : OrderMap) (ids : List OrderId) :
    (fillOrders current ids).1.lookup id = if id ∈ ids then none else current.lookup id := by
  induction ids generalizing current with
  | nil => rfl
  | cons i ids ih =>
    rw [fillOrders, ih]
    by_cases hid : id = i
    · subst hid
      rw [AList.lookup_erase, ite_self, if_pos List.mem_cons_self]
    · simp only [List.mem_cons, hid, false_or, AList.lookup_erase_ne hid]

/-- It reports each collected order once, as it rested. -/
theorem orders_fillOrders (current : OrderMap) {ids : List OrderId} (h : ids.Nodup) :
    (fillOrders current ids).2 = ids.map fun i => filledOrder ((current.lookup i).getD {}) := by
  induction ids generalizing current with
  | nil => rfl
  | cons i ids ih =>
    have hne : ∀ i' ∈ ids, i' ≠ i := fun i' hi' heq => (List.nodup_cons.mp h).1 (heq ▸ hi')
    rw [fillOrders, ih _ (List.nodup_cons.mp h).2, List.map_cons, List.cons.injEq]
    refine ⟨rfl, List.map_congr_left fun i' hi' => ?_⟩
    rw [AList.lookup_erase_ne (hne i' hi')]

/-- **The orders a price update reports**: those it fills, once each. -/
theorem orders_executePriceUpdate (data : PriceUpdate) :
    (executePriceUpdate orderList data).2 =
      (filledIds data.price (ordersOf orderList data.instrument)).map fun i =>
        filledOrder ((resting orderList data.instrument i).getD {}) := by
  cases h : orderList.lookup data.instrument with
  | none => simp only [executePriceUpdate, ordersOf, h]; rfl
  | some current =>
    simp only [executePriceUpdate, resting, ordersOf, h, Option.getD_some]
    exact orders_fillOrders current (nodup_filledIds _ _)

/-- **The orders left by a price update**: those it does not fill. -/
theorem resting_executePriceUpdate (data : PriceUpdate) :
    resting (executePriceUpdate orderList data).1 i id =
      if i = data.instrument ∧ id ∈ filledIds data.price (ordersOf orderList data.instrument)
      then none else resting orderList i id := by
  cases h : orderList.lookup data.instrument with
  | none =>
    have hempty : ordersOf orderList data.instrument = ∅ := by rw [ordersOf, h, Option.getD_none]
    rw [hempty, if_neg fun hmem => List.not_mem_nil hmem.2]
    simp only [executePriceUpdate, h]
  | some current =>
    have hcurrent : ordersOf orderList data.instrument = current := by
      rw [ordersOf, h, Option.getD_some]
    simp only [executePriceUpdate, h, hcurrent]
    by_cases hi : i = data.instrument
    · subst hi
      simp only [resting, ordersOf_insert_self, lookup_fillOrders, hcurrent, true_and]
    · rw [if_neg fun h => hi h.1]
      exact congrArg (AList.lookup id) (ordersOf_insert_ne hi _)

end SimulatorOrder

/-! ## The history of the simulator -/

/-- A task of the simulator. -/
inductive SimulatorEvent
  | place (order : Order)
  | cancel (order : Order)
  | priceUpdate (data : PriceUpdate)
  deriving DecidableEq

/-- An order passed to `update_order`, with the task that did so. -/
structure SimulatorReport where
  cause : SimulatorEvent
  order : Order

namespace SimulatorReport

variable (r : SimulatorReport) (id : OrderId)

/-- The order is reported `NEW`. -/
def IsNew : Prop := r.order.orderId = id ∧ r.order.status = .new

/-- The order is reported filled or canceled. -/
def IsEnd : Prop :=
  r.order.orderId = id ∧ (r.order.status = .filled ∨ r.order.status = .canceled)

instance : Decidable (r.IsNew id) := inferInstanceAs (Decidable (_ ∧ _))

instance : Decidable (r.IsEnd id) := inferInstanceAs (Decidable (_ ∧ _))

/-- The limit of an order is no worse than a price it is filled at. -/
def NoWorse (price : ℚ) (order : Order) : Prop :=
  (order.side = .buy → price ≤ order.price) ∧ (order.side = .sell → order.price ≤ price)

/-- **What is claimed of a fill**, for the order as it was placed. -/
def FillsRightly (placed : Order) : Prop :=
  ∃ data, r.cause = .priceUpdate data ∧ data.instrument = placed.instrument ∧
    r.order.filledQuantity = placed.quantity ∧
    (placed.type = .limit → SimulatorOrder.Through data.price placed ∧
      NoWorse r.order.filledPrice placed) ∧
    (placed.type = .market → r.order.filledPrice = data.price)

end SimulatorReport

/-- The simulator, with the orders placed and the orders reported so far. -/
structure SimulatorHistory where
  orderList : SimulatorOrderList := ∅
  placed : List Order := []
  reports : List SimulatorReport := []

namespace SimulatorHistory

open SimulatorOrder

/-- The orders left resting by a task, and the orders it reports. -/
def handle (orderList : SimulatorOrderList) : SimulatorEvent → SimulatorOrderList × List Order
  | .place order => executePlace orderList order
  | .cancel order => executeCancel orderList order
  | .priceUpdate data => executePriceUpdate orderList data

/-- The order a task places. -/
def placedBy : SimulatorEvent → List Order
  | .place order => [order]
  | _ => []

def step (s : SimulatorHistory) (e : SimulatorEvent) : SimulatorHistory where
  orderList := (handle s.orderList e).1
  placed := s.placed ++ placedBy e
  reports := s.reports ++ (handle s.orderList e).2.map fun order => ⟨e, order⟩

/-- An id is placed once, and a cancellation names an order that was placed. -/
def Legal (s : SimulatorHistory) : SimulatorEvent → Prop
  | .place order => ∀ q ∈ s.placed, q.orderId ≠ order.orderId
  | .cancel order =>
    ∃ q ∈ s.placed, q.orderId = order.orderId ∧ q.instrument = order.instrument
  | .priceUpdate _ => True

instance (s : SimulatorHistory) : ∀ e, Decidable (s.Legal e)
  | .place _ => inferInstanceAs (Decidable (∀ q ∈ s.placed, _))
  | .cancel _ => inferInstanceAs (Decidable (∃ q ∈ s.placed, _))
  | .priceUpdate _ => inferInstanceAs (Decidable True)

/-- **What is claimed of a history.** -/
structure LifeCycle (s : SimulatorHistory) : Prop where
  new : ∀ q ∈ s.placed, s.reports.countP (·.IsNew q.orderId) = 1
  terminal : ∀ id, s.reports.countP (·.IsEnd id) ≤ 1
  terminalPlaced : ∀ r ∈ s.reports, r.IsEnd r.order.orderId →
    ∃ q ∈ s.placed, q.orderId = r.order.orderId
  filled : ∀ r ∈ s.reports, r.order.status = .filled →
    ∀ q ∈ s.placed, q.orderId = r.order.orderId → r.FillsRightly q

/-- The claim about the history a step leads to. -/
def LifeCycleAfter (s : SimulatorHistory) (e : SimulatorEvent) : Prop := (s.step e).LifeCycle

/-- **The condition.**  A canceled order still rests, and a market order that rests when the price
of its instrument comes in has that price. -/
def Settles (s : SimulatorHistory) : SimulatorEvent → Prop
  | .place _ => True
  | .cancel order => order.orderId ∈ ordersOf s.orderList order.instrument
  | .priceUpdate data =>
    ∀ entry ∈ (ordersOf s.orderList data.instrument).entries,
      entry.2.type = .market → entry.2.price = data.price

instance (s : SimulatorHistory) : ∀ e, Decidable (s.Settles e)
  | .place _ => inferInstanceAs (Decidable True)
  | .cancel _ => inferInstanceAs (Decidable (_ ∈ _))
  | .priceUpdate data =>
    inferInstanceAs (Decidable (∀ entry ∈ (ordersOf s.orderList data.instrument).entries, _))

/-- The invariant: what rests is what was placed and has not ended. -/
structure Sound (s : SimulatorHistory) : Prop where
  lifeCycle : s.LifeCycle
  newPlaced : ∀ id, (∀ q ∈ s.placed, q.orderId ≠ id) → s.reports.countP (·.IsNew id) = 0
  unique : ∀ q ∈ s.placed, ∀ q' ∈ s.placed, q.orderId = q'.orderId → q = q'
  rests : ∀ {i id o}, resting s.orderList i id = some o →
    ∃ q ∈ s.placed, o = placedOrder q ∧ q.instrument = i ∧ q.orderId = id ∧
      s.reports.countP (·.IsEnd id) = 0
  stillRests : ∀ q ∈ s.placed, s.reports.countP (·.IsEnd q.orderId) = 0 →
    resting s.orderList q.instrument q.orderId = some (placedOrder q)

theorem sound_init : ({} : SimulatorHistory).Sound where
  lifeCycle := ⟨fun _ hq => absurd hq List.not_mem_nil, fun _ => Nat.zero_le _,
    fun _ hr => absurd hr List.not_mem_nil, fun _ hr => absurd hr List.not_mem_nil⟩
  newPlaced _ _ := rfl
  unique _ hq := absurd hq List.not_mem_nil
  rests h := absurd h.symm (Option.some_ne_none _)
  stillRests _ hq := absurd hq List.not_mem_nil

variable {s s' : SimulatorHistory} {order : Order} {data : PriceUpdate}

/-! ## One task -/

/-- An order that has not been placed has no report. -/
theorem Sound.countP_isEnd (h : s.Sound) {id : OrderId} (hid : ∀ q ∈ s.placed, q.orderId ≠ id) :
    s.reports.countP (·.IsEnd id) = 0 := by
  rw [List.countP_eq_zero]
  intro r hr hend
  have hend := of_decide_eq_true hend
  obtain ⟨q, hq, hq'⟩ := h.lifeCycle.terminalPlaced r hr (hend.1.symm ▸ hend)
  exact hid q hq (hq'.trans hend.1)

/-- **Reports of ends**: each is of an order that rests, and takes it off. -/
theorem Sound.ends (h : s.Sound) (rs : List SimulatorReport) (hplaced : s'.placed = s.placed)
    (hreports : s'.reports = s.reports ++ rs)
    (hnew : ∀ r ∈ rs, r.order.status ≠ .new)
    (honce : ∀ id, rs.countP (·.IsEnd id) ≤ 1)
    (hresting : ∀ r ∈ rs, ∃ i o, resting s.orderList i r.order.orderId = some o)
    (hleft : ∀ i id o, resting s'.orderList i id = some o ↔
      resting s.orderList i id = some o ∧ rs.countP (·.IsEnd id) = 0)
    (hfills : ∀ r ∈ rs, r.order.status = .filled →
      ∀ q ∈ s.placed, q.orderId = r.order.orderId → r.FillsRightly q) : s'.Sound := by
  have hnone : ∀ id, rs.countP (·.IsNew id) = 0 := by
    intro id
    rw [List.countP_eq_zero]
    exact fun r hr hisNew => hnew r hr (of_decide_eq_true hisNew).2
  refine ⟨⟨fun q hq => ?_, fun id => ?_, fun r hr hend => ?_, fun r hr hfilled q hq hid => ?_⟩,
    fun id hid => ?_, ?_, fun {i id o} hrest => ?_, fun q hq hcount => ?_⟩
  · rw [hplaced] at hq
    rw [hreports, List.countP_append, hnone, h.lifeCycle.new q hq]
  · rw [hreports, List.countP_append]
    by_cases hzero : rs.countP (·.IsEnd id) = 0
    · rw [hzero]
      exact h.lifeCycle.terminal id
    · obtain ⟨r, hr, hend⟩ := List.countP_pos_iff.mp (Nat.pos_of_ne_zero hzero)
      have hend := of_decide_eq_true hend
      obtain ⟨i, o, hrest⟩ := hresting r hr
      obtain ⟨q, -, -, -, -, hcount⟩ := h.rests hrest
      rw [hend.1] at hcount
      rw [hcount, Nat.zero_add]
      exact honce id
  · rw [hreports, List.mem_append] at hr
    rw [hplaced]
    rcases hr with hr | hr
    · exact h.lifeCycle.terminalPlaced r hr hend
    · obtain ⟨i, o, hrest⟩ := hresting r hr
      obtain ⟨q, hq, -, -, hid, -⟩ := h.rests hrest
      exact ⟨q, hq, hid⟩
  · rw [hreports, List.mem_append] at hr
    rw [hplaced] at hq
    rcases hr with hr | hr
    · exact h.lifeCycle.filled r hr hfilled q hq hid
    · exact hfills r hr hfilled q hq hid
  · rw [hplaced] at hid
    rw [hreports, List.countP_append, hnone, h.newPlaced id hid]
  · rw [hplaced]
    exact h.unique
  · obtain ⟨hold, hzero⟩ := (hleft i id o).mp hrest
    obtain ⟨q, hq, ho, hi, hid, hcount⟩ := h.rests hold
    rw [hplaced, hreports, List.countP_append, hcount, hzero]
    exact ⟨q, hq, ho, hi, hid, rfl⟩
  · rw [hplaced] at hq
    rw [hreports, List.countP_append, Nat.add_eq_zero_iff] at hcount
    exact (hleft _ _ _).mpr ⟨h.stillRests q hq hcount.1, hcount.2⟩

/-- A placed order is reported `NEW` and rests. -/
theorem sound_place (h : s.Sound) (hlegal : s.Legal (.place order)) :
    (s.step (.place order)).Sound := by
  have hnone : resting s.orderList order.instrument order.orderId = none := by
    cases hrest : resting s.orderList order.instrument order.orderId with
    | none => rfl
    | some o =>
      obtain ⟨q, hq, -, -, hid, -⟩ := h.rests hrest
      exact absurd hid (hlegal q hq)
  have hreports : (s.step (.place order)).reports =
      s.reports ++ [⟨.place order, placedOrder order⟩] := rfl
  have hplaced : (s.step (.place order)).placed = s.placed ++ [order] := rfl
  have hend : ∀ id, (s.step (.place order)).reports.countP (·.IsEnd id) =
      s.reports.countP (·.IsEnd id) := by
    intro id
    rw [hreports, List.countP_append, Nat.add_eq_left, List.countP_eq_zero]
    simp [SimulatorReport.IsEnd, placedOrder]
  have hnew : ∀ id, (s.step (.place order)).reports.countP (·.IsNew id) =
      s.reports.countP (·.IsNew id) + if order.orderId = id then 1 else 0 := by
    intro id
    rw [hreports, List.countP_append]
    simp [SimulatorReport.IsNew, placedOrder, List.countP_cons]
  have hold : ∀ {q}, q ∈ (s.step (.place order)).placed → q ∈ s.placed ∨ q = order := by
    intro q hq
    rw [hplaced] at hq
    exact (List.mem_append.mp hq).imp_right List.mem_singleton.mp
  have hreport : ∀ {r}, r ∈ (s.step (.place order)).reports →
      r ∈ s.reports ∨ r.order = placedOrder order := by
    intro r hr
    rw [hreports] at hr
    exact (List.mem_append.mp hr).imp_right fun hr => congrArg _ (List.mem_singleton.mp hr)
  refine ⟨⟨fun q hq => ?_, fun id => ?_, fun r hr hisEnd => ?_, fun r hr hfilled q hq hid => ?_⟩,
    fun id hid => ?_, fun q hq q' hq' hid => ?_, fun {i id o} hrest => ?_, fun q hq hcount => ?_⟩
  · rw [hnew]
    rcases hold hq with hq | rfl
    · rw [if_neg fun hid => hlegal q hq hid.symm, h.lifeCycle.new q hq]
    · rw [if_pos rfl, h.newPlaced _ hlegal]
  · rw [hend]
    exact h.lifeCycle.terminal id
  · rcases hreport hr with hr | hr
    · obtain ⟨q, hq, hid⟩ := h.lifeCycle.terminalPlaced r hr hisEnd
      exact ⟨q, List.mem_append_left _ hq, hid⟩
    · exact ⟨order, List.mem_append_right _ (List.mem_singleton.mpr rfl), by rw [hr]; rfl⟩
  · rcases hreport hr with hr' | hr'
    · rcases hold hq with hq' | heq
      · exact h.lifeCycle.filled r hr' hfilled q hq' hid
      · -- the order was not placed before, so it was not filled before
        obtain ⟨q', hq', hid'⟩ := h.lifeCycle.terminalPlaced r hr' ⟨rfl, Or.inl hfilled⟩
        exact absurd (hid'.trans (heq ▸ hid.symm)) (hlegal q' hq')
    · rw [hr'] at hfilled
      exact absurd hfilled (show OrderStatus.new ≠ .filled by decide)
  · rw [hplaced] at hid
    rw [hnew, h.newPlaced id fun q hq => hid q (List.mem_append_left _ hq),
      if_neg (hid order (List.mem_append_right _ (List.mem_singleton.mpr rfl)))]
  · rcases hold hq with hq₀ | heq <;> rcases hold hq' with hq₀' | heq'
    · exact h.unique q hq₀ q' hq₀' hid
    · exact absurd (heq' ▸ hid) (hlegal q hq₀)
    · exact absurd (heq ▸ hid.symm) (hlegal q' hq₀')
    · exact heq.trans heq'.symm
  · rw [step, handle, resting_executePlace hnone] at hrest
    rw [hend]
    split_ifs at hrest with hself
    · exact ⟨order, List.mem_append_right _ (List.mem_singleton.mpr rfl),
        (Option.some.inj hrest).symm, hself.1.symm, hself.2.symm,
        hself.2 ▸ h.countP_isEnd hlegal⟩
    · obtain ⟨q, hq, hrest'⟩ := h.rests hrest
      exact ⟨q, List.mem_append_left _ hq, hrest'⟩
  · rw [step, handle, resting_executePlace hnone]
    rcases hold hq with hq | rfl
    · rw [if_neg fun hself => hlegal q hq hself.2]
      exact h.stillRests q hq (hend _ ▸ hcount)
    · rw [if_pos ⟨rfl, rfl⟩]

/-- **A cancellation of an order that rests** ends it. -/
theorem sound_cancel (h : s.Sound) (hlegal : s.Legal (.cancel order))
    (hok : s.Settles (.cancel order)) : (s.step (.cancel order)).Sound := by
  obtain ⟨q, hq, hid, hi⟩ := hlegal
  let canceled : SimulatorReport := ⟨.cancel order, { order with status := .canceled }⟩
  have hcount : ∀ id, [canceled].countP (·.IsEnd id) = if id = order.orderId then 1 else 0 := by
    intro id
    simp [canceled, SimulatorReport.IsEnd, List.countP_cons, eq_comm]
  refine h.ends [canceled] (List.append_nil _) rfl ?_ (fun id => ?_) ?_
    (fun i id o => ?_) ?_
  · rintro r hr
    rw [List.mem_singleton.mp hr]
    exact show OrderStatus.canceled ≠ .new by decide
  · refine (hcount id).trans_le ?_
    split_ifs <;> decide
  · rintro r hr
    obtain ⟨o, ho⟩ := Option.isSome_iff_exists.mp (AList.lookup_isSome.mpr hok)
    rw [List.mem_singleton.mp hr]
    exact ⟨order.instrument, o, ho⟩
  · rw [step, handle, resting_executeCancel, hcount]
    by_cases hid' : id = order.orderId
    · rw [if_pos hid']
      refine iff_of_false (fun hrest => ?_) (fun hrest => one_ne_zero hrest.2)
      split_ifs at hrest with hself
      -- the order rests on the instrument it was placed on
      obtain ⟨q', hq', -, hi', hid'', -⟩ := h.rests hrest
      have heq := h.unique q' hq' q hq (hid''.trans (hid'.trans hid.symm))
      exact hself ⟨hi'.symm.trans (heq ▸ hi), hid'⟩
    · rw [if_neg fun hself => hid' hself.2, if_neg hid']
      exact (and_iff_left rfl).symm
  · rintro r hr hfilled
    rw [List.mem_singleton.mp hr] at hfilled
    exact absurd hfilled (show OrderStatus.canceled ≠ .filled by decide)

/-- What a price update reports of an order that rests. -/
def fillReport (s : SimulatorHistory) (data : PriceUpdate) (id : OrderId) : SimulatorReport :=
  ⟨.priceUpdate data, filledOrder ((resting s.orderList data.instrument id).getD {})⟩

/-- The ids a price update fills. -/
def filledBy (s : SimulatorHistory) (data : PriceUpdate) : List OrderId :=
  filledIds data.price (ordersOf s.orderList data.instrument)

theorem reports_priceUpdate (s : SimulatorHistory) (data : PriceUpdate) :
    (s.step (.priceUpdate data)).reports =
      s.reports ++ (s.filledBy data).map (s.fillReport data) := by
  rw [step, handle, orders_executePriceUpdate, List.map_map]
  rfl

/-- An id that is filled is of a placed order that rests, and the report is of that order. -/
theorem Sound.fillReport (h : s.Sound) {id : OrderId} (hid : id ∈ s.filledBy data) :
    ∃ q ∈ s.placed, q.orderId = id ∧ q.instrument = data.instrument ∧
      IsFilledBy data.price (placedOrder q) ∧
      resting s.orderList data.instrument id = some (placedOrder q) ∧
      s.fillReport data id = ⟨.priceUpdate data, filledOrder (placedOrder q)⟩ := by
  obtain ⟨o, hrest, hfilled⟩ := mem_filledIds.mp hid
  have hrest : resting s.orderList data.instrument id = some o := hrest
  obtain ⟨q, hq, rfl, hi, hq', -⟩ := h.rests hrest
  refine ⟨q, hq, hq', hi, hfilled, hrest, ?_⟩
  rw [SimulatorHistory.fillReport, hrest, Option.getD_some]

/-- **A price update** ends the orders it fills, each at its own price. -/
theorem sound_priceUpdate (h : s.Sound) (hok : s.Settles (.priceUpdate data)) :
    (s.step (.priceUpdate data)).Sound := by
  have hcount : ∀ id, ((s.filledBy data).map (s.fillReport data)).countP (·.IsEnd id) =
      if id ∈ s.filledBy data then 1 else 0 := by
    intro id
    rw [List.countP_map]
    have hiff : ∀ i ∈ s.filledBy data,
        ((fun r : SimulatorReport => decide (r.IsEnd id)) ∘ s.fillReport data) i = true ↔
          (i == id) = true := by
      intro i hi
      obtain ⟨q, -, hq, -, -, -, hreport⟩ := h.fillReport hi
      simp [hreport, SimulatorReport.IsEnd, filledOrder, placedOrder, hq]
    rw [List.countP_congr hiff]
    exact (nodup_filledIds _ _).count
  refine h.ends ((s.filledBy data).map (s.fillReport data)) (List.append_nil _)
    (reports_priceUpdate s data) ?_ (fun id => ?_) ?_ (fun i id o => ?_) ?_
  · intro r hr
    obtain ⟨id, hid, rfl⟩ := List.mem_map.mp hr
    exact show OrderStatus.filled ≠ .new by decide
  · rw [hcount]
    split_ifs <;> decide
  · intro r hr
    obtain ⟨id, hid, rfl⟩ := List.mem_map.mp hr
    obtain ⟨q, -, hq, -, -, hrest, hreport⟩ := h.fillReport hid
    rw [hreport]
    exact ⟨data.instrument, placedOrder q, hq ▸ hrest⟩
  · rw [step, handle, resting_executePriceUpdate, hcount]
    by_cases hid : id ∈ s.filledBy data
    · rw [if_pos hid]
      refine iff_of_false (fun hrest => ?_) (fun hrest => one_ne_zero hrest.2)
      split_ifs at hrest with hself
      obtain ⟨q, hq, -, hi, hq', -⟩ := h.rests hrest
      obtain ⟨q', hq₀, hq₀', hi', -⟩ := h.fillReport hid
      have heq := h.unique q hq q' hq₀ (hq'.trans hq₀'.symm)
      exact hself ⟨hi.symm.trans (heq ▸ hi'), hid⟩
    · rw [if_neg fun hself => hid hself.2, if_neg hid]
      exact (and_iff_left rfl).symm
  · intro r hr _ q hq hid
    obtain ⟨id, hmem, rfl⟩ := List.mem_map.mp hr
    obtain ⟨q', hq', hid', hi, hfilled, hrest, hreport⟩ := h.fillReport hmem
    rw [hreport] at hid ⊢
    obtain rfl := h.unique q hq q' hq' hid
    refine ⟨data, rfl, hi.symm, rfl, fun htype => ⟨?_, fun _ => le_rfl, fun _ => le_rfl⟩,
      fun htype => ?_⟩
    · simpa only [IsFilledBy, placedOrder, htype, Through] using hfilled
    · exact hok ⟨id, placedOrder q⟩ (AList.mem_lookup_iff.mp hrest) htype

/-- **The step lemma.** -/
theorem sound_step (h : s.Sound) (e : SimulatorEvent) (hlegal : s.Legal e) (hok : s.Settles e) :
    (s.step e).Sound := by
  cases e with
  | place order => exact sound_place h hlegal
  | cancel order => exact sound_cancel h hlegal hok
  | priceUpdate data => exact sound_priceUpdate h hok

/-- **A cancellation of an order that no longer rests** is a second end. -/
theorem not_lifeCycleAfter_cancel (h : s.Sound) (hlegal : s.Legal (.cancel order))
    (hok : ¬ s.Settles (.cancel order)) : ¬ s.LifeCycleAfter (.cancel order) := by
  intro hafter
  obtain ⟨q, hq, hid, hi⟩ := hlegal
  have hended : s.reports.countP (·.IsEnd order.orderId) ≠ 0 := by
    intro hcount
    have hrest := h.stillRests q hq (hid ▸ hcount)
    rw [hid, hi] at hrest
    exact hok (AList.lookup_isSome.mp (by rw [resting] at hrest; rw [hrest]; rfl))
  have htwo := hafter.terminal order.orderId
  have hcount : (s.step (.cancel order)).reports.countP (·.IsEnd order.orderId) =
      s.reports.countP (·.IsEnd order.orderId) + 1 := by
    rw [step, handle, executeCancel, List.countP_append]
    simp [SimulatorReport.IsEnd]
  omega

/-- **A market order at another price** is filled at the wrong one. -/
theorem not_lifeCycleAfter_priceUpdate (h : s.Sound) (hok : ¬ s.Settles (.priceUpdate data)) :
    ¬ s.LifeCycleAfter (.priceUpdate data) := by
  intro hafter
  refine hok fun entry hentry htype => ?_
  obtain ⟨id, o⟩ := entry
  have hrest : resting s.orderList data.instrument id = some o := AList.mem_lookup_iff.mpr hentry
  have hfilled : IsFilledBy data.price o := by
    simp only [IsFilledBy, show o.type = .market from htype]
  have hmem : id ∈ s.filledBy data := mem_filledIds.mpr ⟨o, hrest, hfilled⟩
  obtain ⟨q, hq, hid, -, -, hrest', hreport⟩ := h.fillReport hmem
  obtain rfl : o = placedOrder q := Option.some.inj (hrest.symm.trans hrest')
  have hin : s.fillReport data id ∈ (s.step (.priceUpdate data)).reports := by
    rw [reports_priceUpdate]
    exact List.mem_append_right _ (List.mem_map_of_mem hmem)
  rw [hreport] at hin
  obtain ⟨data', hcause, -, -, -, hprice⟩ :=
    hafter.filled _ hin rfl q (List.mem_append_left _ hq) rfl
  obtain rfl := SimulatorEvent.priceUpdate.inj hcause
  exact hprice htype

/-- **Exactness of one task.** -/
theorem lifeCycleAfter_iff (h : s.Sound) (e : SimulatorEvent) (hlegal : s.Legal e) :
    s.LifeCycleAfter e ↔ s.Settles e := by
  refine ⟨fun hafter => ?_, fun hok => (sound_step h e hlegal hok).lifeCycle⟩
  cases e with
  | place order => exact trivial
  | cancel order => exact not_imp_not.mp (not_lifeCycleAfter_cancel h hlegal) hafter
  | priceUpdate data => exact not_imp_not.mp (not_lifeCycleAfter_priceUpdate h) hafter

/-- **Exactness of a run.** -/
theorem along_lifeCycleAfter_iff (h : s.Sound) {es : List SimulatorEvent}
    (hlegal : Run.Along step Legal s es) :
    Run.Along step LifeCycleAfter s es ↔ Run.Along step Settles s es :=
  Run.along_iff_of_invariant (I := Sound) (fun _ e h hlegal hok => sound_step h e hlegal hok)
    (fun _ e h hlegal => lifeCycleAfter_iff h e hlegal) h hlegal

/-- **The life cycle of a simulated order.**  In every history that places an id once and cancels
placed orders only, what is claimed of the reports holds throughout exactly when every canceled
order still rests and every resting market order has the price that fills it. -/
theorem lifeCycle_iff_settles {es : List SimulatorEvent} (hlegal : Run.Along step Legal {} es) :
    Run.Along step LifeCycleAfter {} es ↔ Run.Along step Settles {} es :=
  along_lifeCycleAfter_iff sound_init hlegal

/-- A limit order to buy at 100, placed, filled at 99 and canceled too late. -/
def lateCancelRun : List SimulatorEvent :=
  let instrument : Instrument := .create .binance .perpetual "BTC/USDT" "BTCUSDT" 3 2
  let order : Order := { orderId := 1, instrument := instrument, price := 100, quantity := 2 }
  [.place order, .priceUpdate ⟨instrument, 99⟩, .cancel order]

/-- **The order is filled and canceled.** -/
theorem lateCancelRun_not_lifeCycle :
    Run.Along step Legal {} lateCancelRun ∧ ¬ Run.Along step LifeCycleAfter {} lateCancelRun := by
  have hlegal : Run.Along step Legal {} lateCancelRun := by decide +kernel
  refine ⟨hlegal, ?_⟩
  rw [along_lifeCycleAfter_iff sound_init hlegal]
  decide +kernel

/-- A limit order and a market order, one filled and one canceled in time. -/
def timelyRun : List SimulatorEvent :=
  let instrument : Instrument := .create .binance .perpetual "BTC/USDT" "BTCUSDT" 3 2
  let limit : Order := { orderId := 1, instrument := instrument, price := 100, quantity := 2 }
  let market : Order :=
    { orderId := 2, instrument := instrument, type := .market, price := 101, quantity := 1 }
  [.place limit, .place market, .priceUpdate ⟨instrument, 101⟩, .cancel limit]

theorem timelyRun_lifeCycle : Run.Along step LifeCycleAfter {} timelyRun :=
  (lifeCycle_iff_settles (by decide +kernel)).mpr (by decide +kernel)

end SimulatorHistory

end TradingEngine
