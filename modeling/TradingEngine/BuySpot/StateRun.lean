import TradingEngine.MeanReversion.StateRun

/-!
# BuySpot/StateRun — a ladder of buy points below the market

`StrategyBuySpotStateRun` keeps a buy point for every price at which it has bought or wants to buy.
A price update places buy orders on the ladder below the price and sell orders for the lowest points
that hold something; an order update moves one point on.  The points are an unordered map: the order
in which a loop visits them is left open, and so is the first of them.

`none` is a read through a null pointer.  What is asked of the gateway stands beside the price of
the point that it is about.
-/

namespace TradingEngine

open Grid

/-- `BuyPoint::Status`. -/
inductive BuyPointStatus
  | available
  | placing
  | placed
  | canceling
  | hold
  deriving DecidableEq, Repr

/-- `BuyPoint`. -/
structure BuyPoint where
  price : ℚ := 0
  quantity : ℚ := 0
  inputInUsdt : ℚ := 0
  outputInUsdt : ℚ := 0
  profit : ℚ := 0
  currentOrderId : OrderId := 0
  status : BuyPointStatus := .available
  deriving DecidableEq

/-- `StrategyBuySpotConfig`, as far as the handlers read it beside a log line. -/
structure StrategyBuySpotConfig where
  buyVolumn : ℚ := 20
  movePrice : ℚ := 100
  takeProfit : ℚ := 500
  maxOpenOrders : ℕ := 3
  move_pos : 0 < movePrice
  open_pos : 1 ≤ maxOpenOrders

/-- `StrategyBuySpotStateRun`; `m_buy_points` is its keys and what they stand for. -/
structure StrategyBuySpotStateRun where
  config : StrategyBuySpotConfig
  instrument : Instrument
  currentPrice : ℚ := 0
  lowerNearestPrice : ℚ := 0
  prices : List ℚ := []
  buyPoint : ℚ → BuyPoint := fun _ => {}
  nodup : prices.Nodup

/-- What a loop over the points does with one of them. -/
abbrev BuyPointVisit := ℚ → BuyPoint → BuyPoint × List OrderRequest

/-- `while (price >= m_current_price) price -= m_config.move_price`, so many turns at most. -/
def stepDown (current move : ℚ) : ℕ → ℚ → ℚ
  | 0, price => price
  | n + 1, price => if price ≥ current then stepDown current move n (price - move) else price

/-- `while (price + m_config.move_price < m_current_price) price += m_config.move_price`. -/
def stepUp (current move : ℚ) : ℕ → ℚ → ℚ
  | 0, price => price
  | n + 1, price => if price + move < current then stepUp current move n (price + move) else price

/-- The two loops one after the other, with the turns that they need. -/
def lowerNearest (current move price : ℚ) : ℚ :=
  let price := stepDown current move (⌊(price - current) / move⌋ + 1).toNat price
  stepUp current move ⌈(current - price) / move⌉.toNat price

namespace StrategyBuySpotStateRun

variable (s : StrategyBuySpotStateRun)

/-- `emplace`, which leaves a point alone that is there. -/
def addBuyPointAtPrice (price : ℚ) : StrategyBuySpotStateRun :=
  if h : price ∈ s.prices then s
  else
    { s with
      prices := s.prices ++ [price]
      buyPoint := Function.update s.buyPoint price { price := price }
      nodup := List.nodup_append.mpr
        ⟨s.nodup, by simp, fun _ ha _ hb =>
          List.mem_singleton.mp hb ▸ fun heq => h (heq ▸ ha)⟩ }

def getBuyPointByPrice (price : ℚ) : Option BuyPoint :=
  if price ∈ s.prices then some (s.buyPoint price) else none

/-- `*buy_point = buy_point_data`. -/
def setBuyPoint (price : ℚ) (b : BuyPoint) : StrategyBuySpotStateRun :=
  { s with buyPoint := Function.update s.buyPoint price b }

theorem buyPoint_setBuyPoint (price : ℚ) (b : BuyPoint) (p : ℚ) :
    (s.setBuyPoint price b).buyPoint p = if p = price then b else s.buyPoint p :=
  Function.update_apply ..

/-- `for (auto& [price, buy_point] : m_buy_points)`. -/
def forEach (visit : BuyPointVisit) : StrategyBuySpotStateRun × List (ℚ × OrderRequest) :=
  ({ s with
      buyPoint := fun price =>
        if price ∈ s.prices then (visit price (s.buyPoint price)).1 else s.buyPoint price },
    s.prices.flatMap fun price => (visit price (s.buyPoint price)).2.map (price, ·))

theorem buyPoint_forEach (visit : BuyPointVisit) (p : ℚ) :
    (s.forEach visit).1.buyPoint p =
      if p ∈ s.prices then (visit p (s.buyPoint p)).1 else s.buyPoint p := rfl

def getLimitBuySpotOrderByPrice (newId : OrderId) (price : ℚ) : Order where
  orderId := newId
  instrument := some s.instrument
  side := .buy
  type := .limit
  price := price
  quantity := s.instrument.getRoundUpQuantity (s.config.buyVolumn / price)

def getLimitSellSpotOrder (newId : OrderId) (price quantity : ℚ) : Order where
  orderId := newId
  instrument := some s.instrument
  side := .sell
  type := .limit
  price := price
  quantity := quantity

def getCancelOrder (orderId : OrderId) : Order where
  orderId := orderId
  instrument := some s.instrument
  side := .buy
  type := .limit

/-- `get_a_price_point`: the first point of the map, which has one afterwards. -/
def getAPricePoint (first : ℚ) : StrategyBuySpotStateRun × ℚ :=
  if s.prices = [] then
    (s.addBuyPointAtPrice (s.currentPrice - s.config.movePrice),
      s.currentPrice - s.config.movePrice)
  else (s, first)

/-- `get_lower_nearest_price`, stored in its member. -/
def updateLowerNearestPrice (first : ℚ) : StrategyBuySpotStateRun :=
  let found := s.getAPricePoint first
  { found.1 with
    lowerNearestPrice := lowerNearest s.currentPrice s.config.movePrice found.2 }

/-- The prices at which buy orders shall stand. -/
def ladder : List ℚ :=
  (List.range s.config.maxOpenOrders).map fun i => s.lowerNearestPrice - s.config.movePrice * i

def addNewBuyPoints : StrategyBuySpotStateRun := s.ladder.foldl addBuyPointAtPrice s

/-- The first loop of `update_buy_orders`. -/
def placeBuyOrders (newId : ℚ → OrderId) :
    List ℚ → StrategyBuySpotStateRun →
      Option (StrategyBuySpotStateRun × List (ℚ × OrderRequest))
  | [], s => some (s, [])
  | price :: prices, s =>
    match s.getBuyPointByPrice price with
    | none => none
    | some b =>
      if b.status = .available then
        (placeBuyOrders newId prices (s.setBuyPoint price { b with status := .placing })).map
          fun placed => (placed.1,
            (price, .place (s.getLimitBuySpotOrderByPrice (newId price) price)) :: placed.2)
      else placeBuyOrders newId prices s

/-- The body of the second one: a buy order that has fallen below the ladder. -/
def cancelLowBuyOrder (minPriceToPlace : ℚ) : BuyPointVisit := fun price b =>
  if price < minPriceToPlace ∧ b.status = .placed ∧ b.quantity = 0 then
    ({ b with status := .canceling }, [.cancel (s.getCancelOrder b.currentOrderId)])
  else (b, [])

def minPriceToPlace : ℚ :=
  s.lowerNearestPrice - (s.config.maxOpenOrders - 1 : ℕ) * s.config.movePrice

def updateBuyOrders (newId : ℚ → OrderId) :
    Option (StrategyBuySpotStateRun × List (ℚ × OrderRequest)) :=
  (placeBuyOrders newId s.ladder s).map fun placed =>
    let canceled := placed.1.forEach (s.cancelLowBuyOrder s.minPriceToPlace)
    (canceled.1, placed.2 ++ canceled.2)

/-- The lowest prices that are held, as many as orders may be open. -/
def holdBuyPointsPrices : List ℚ :=
  ((s.prices.filter fun price => (s.buyPoint price).status = .hold).mergeSort (· ≤ ·)).take
    s.config.maxOpenOrders

/-- The body of the loop of `update_sell_orders`. -/
def updateSellOrder (newId : ℚ → OrderId) (minHoldPrice maxHoldPrice : ℚ) : BuyPointVisit :=
  fun price b =>
    if b.status = .hold ∧ price ≥ minHoldPrice ∧ price ≤ maxHoldPrice then
      ({ b with status := .placing },
        [.place (s.getLimitSellSpotOrder (newId price) (b.price + s.config.takeProfit) b.quantity)])
    -- `||` binds weaker than `&&`: the last test stands alone
    else if (b.status = .placed ∧ b.quantity > 0 ∧ price < minHoldPrice) ∨ price > maxHoldPrice then
      ({ b with status := .canceling }, [.cancel (s.getCancelOrder b.currentOrderId)])
    else (b, [])

def updateSellOrders (newId : ℚ → OrderId) :
    StrategyBuySpotStateRun × List (ℚ × OrderRequest) :=
  match s.holdBuyPointsPrices.head?, s.holdBuyPointsPrices.getLast? with
  | some minHoldPrice, some maxHoldPrice =>
    s.forEach (s.updateSellOrder newId minHoldPrice maxHoldPrice)
  | _, _ => (s, [])

/-- The state once the price is known, and the price below it. -/
def observe (first price : ℚ) : StrategyBuySpotStateRun :=
  updateLowerNearestPrice { s with currentPrice := price } first

/-- `handle_price_update`; prices out of the configured range are logged, and handled. -/
def handlePriceUpdate (newId : ℚ → OrderId) (first price : ℚ) :
    Option (StrategyBuySpotStateRun × List (ℚ × OrderRequest)) :=
  ((s.observe first price).addNewBuyPoints.updateBuyOrders newId).map fun bought =>
    let sold := bought.1.updateSellOrders newId
    (sold.1, bought.2 ++ sold.2)

/-- The price of the point that an order belongs to. -/
def buyPointPrice (order : Order) : ℚ :=
  match order.side with
  | .buy => order.price
  | .sell => order.price - s.config.takeProfit

end StrategyBuySpotStateRun

/-- What `handle_order_update` makes of a point. -/
def BuyPoint.handleOrderUpdate (b : BuyPoint) (order : Order) : BuyPoint :=
  if order.status = .new ∧ order.type = .limit then
    { b with status := .placed, currentOrderId := order.orderId }
  else if order.status = .filled then
    match order.side with
    | .buy =>
      { b with
        status := .hold
        quantity := order.quantity
        currentOrderId := 0
        inputInUsdt := order.volumnInQuoteCurrency }
    | .sell =>
      { b with
        status := .available
        quantity := 0
        currentOrderId := 0
        outputInUsdt := order.outputQuantity
        profit := b.profit + (order.outputQuantity - b.inputInUsdt) }
  else if order.status = .canceled ∨ order.status = .rejected then
    { b with status := if b.quantity = 0 then .available else .hold, currentOrderId := 0 }
  else b

namespace StrategyBuySpotStateRun

variable (s : StrategyBuySpotStateRun)

/-- `handle_order_update`.  There is no `return` behind the warning about a missing point. -/
def handleOrderUpdate (order : Order) : Option StrategyBuySpotStateRun :=
  match s.getBuyPointByPrice (s.buyPointPrice order) with
  | none => none
  | some b => some (s.setBuyPoint (s.buyPointPrice order) (b.handleOrderUpdate order))

end StrategyBuySpotStateRun

/-! ## The price below the market -/

section LowerNearest

variable {current move price : ℚ}

theorem stepDown_spec {n : ℕ} (hn : price < current + n * move) :
    stepDown current move n price < current ∧ OnGrid price move (stepDown current move n price) := by
  induction n generalizing price with
  | zero => exact ⟨by simpa [stepDown] using hn, onGrid_self ..⟩
  | succ n ih =>
    rw [stepDown]
    split
    · have hbelow : price - move < current + n * move := by push_cast at hn; linarith
      obtain ⟨hlt, hgrid⟩ := ih hbelow
      refine ⟨hlt, OnGrid.trans ⟨-1, ?_⟩ hgrid⟩
      push_cast
      ring
    · rename_i hlt
      exact ⟨not_le.mp hlt, onGrid_self ..⟩

theorem stepUp_spec {n : ℕ} (hn : current ≤ price + n * move + move)
    (hlt : price < current) :
    stepUp current move n price < current ∧ current ≤ stepUp current move n price + move ∧
      OnGrid price move (stepUp current move n price) := by
  induction n generalizing price with
  | zero => exact ⟨hlt, by simpa [stepUp] using hn, onGrid_self ..⟩
  | succ n ih =>
    rw [stepUp]
    split
    · rename_i hnext
      have hreach : current ≤ price + move + n * move + move := by push_cast at hn; linarith
      obtain ⟨hlt, hle, hgrid⟩ := ih hreach hnext
      refine ⟨hlt, hle, OnGrid.trans ⟨1, ?_⟩ hgrid⟩
      push_cast
      ring
    · rename_i hnext
      exact ⟨hlt, not_lt.mp hnext, onGrid_self ..⟩

/-- **The loops end** at the price of the grid that is less than a step below the market. -/
theorem lowerNearest_spec (hmove : 0 < move) :
    lowerNearest current move price < current ∧
      current ≤ lowerNearest current move price + move ∧
      OnGrid price move (lowerNearest current move price) := by
  have hdown : price < current + (⌊(price - current) / move⌋ + 1).toNat * move := by
    have hfloor := Int.lt_floor_add_one ((price - current) / move)
    have hturns : ((⌊(price - current) / move⌋ : ℚ) + 1) ≤
        ((⌊(price - current) / move⌋ + 1).toNat : ℚ) := by
      exact_mod_cast Int.self_le_toNat (⌊(price - current) / move⌋ + 1)
    have hlt := (div_lt_iff₀ hmove).mp (hfloor.trans_le hturns)
    linarith
  obtain ⟨hlt, hgrid⟩ := stepDown_spec hdown
  rw [lowerNearest]
  generalize stepDown current move _ price = below at hlt hgrid ⊢
  have hup : current ≤ below + ⌈(current - below) / move⌉.toNat * move + move := by
    have hceil := Int.le_ceil ((current - below) / move)
    have hturns : (⌈(current - below) / move⌉ : ℚ) ≤
        (⌈(current - below) / move⌉.toNat : ℚ) := by
      exact_mod_cast Int.self_le_toNat ⌈(current - below) / move⌉
    have hle := (div_le_iff₀ hmove).mp (hceil.trans hturns)
    linarith
  obtain ⟨hlt', hle, hgrid'⟩ := stepUp_spec hup hlt
  exact ⟨hlt', hle, hgrid.trans hgrid'⟩

end LowerNearest

end TradingEngine
