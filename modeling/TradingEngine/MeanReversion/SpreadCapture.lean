import TradingEngine.Order.Order
import TradingEngine.OrderBook.Snapshot

/-!
# MeanReversion/SpreadCapture — the plan of a cycle: open against the mean, hedge back

`SpreadCaptureConfigManager` decides what the strategy should do next.  A cycle plans an initial
order away from the mid price, waits for it to be filled, plans a hedge order on the other side and
waits for that one, or gives up on it at the stop loss.  It advances on snapshots only; order
updates are copied into the plan as they come.

The standard deviation takes a square root, which is a parameter here.
-/

namespace TradingEngine

/-- `SpreadCaptureConfig::Status`. -/
inductive SpreadCaptureStatus
  | none
  | placingInitialOrder
  | placingHedgeOrder
  | waitingForHedgeOrderFilled
  | stopLoss
  deriving DecidableEq, Repr

/-- The statuses in which an order update is about the hedge order. -/
def SpreadCaptureStatus.isHedging : SpreadCaptureStatus → Bool
  | .placingHedgeOrder | .waitingForHedgeOrderFilled | .stopLoss => true
  | .none | .placingInitialOrder => false

/-- `SpreadCaptureConfig`. -/
structure SpreadCaptureConfig where
  moveDistance : ℚ := 5 / 2
  entryDistance : ℚ := 3 / 2
  takeProfit : ℚ := 1 / 5
  stopLoss : ℚ := 2
  meanPrice : ℚ := 0
  volatility : ℚ := 0
  currentMoveDistance : ℚ := 0
  currentEntryDistance : ℚ := 0
  currentTakeProfit : ℚ := 0
  currentStopLoss : ℚ := 0
  success : ℕ := 0
  fail : ℕ := 0
  profit : ℚ := 0
  loss : ℚ := 0
  initialOrder : Order := {}
  hedgeOrder : Order := {}
  status : SpreadCaptureStatus := .none

namespace SpreadCaptureConfig

variable (c : SpreadCaptureConfig)

/-- Everything but the configured distances starts over. -/
def reset : SpreadCaptureConfig where
  moveDistance := c.moveDistance
  entryDistance := c.entryDistance
  takeProfit := c.takeProfit
  stopLoss := c.stopLoss
  initialOrder := c.initialOrder.setNull
  hedgeOrder := c.hedgeOrder.setNull

/-- The distances of this moment, and no hedge order yet. -/
def rescale : SpreadCaptureConfig :=
  { c with
    currentMoveDistance := c.volatility * c.moveDistance
    currentEntryDistance := c.volatility * c.entryDistance
    currentTakeProfit := c.volatility * c.takeProfit
    currentStopLoss := c.volatility * c.stopLoss
    hedgeOrder := c.hedgeOrder.setNull }

/-- Sell first then buy back above the mean, buy first then sell back below it. -/
def planInitialOrder (midPrice : ℚ) : SpreadCaptureConfig :=
  { c with
    initialOrder :=
      if c.meanPrice < midPrice then
        { c.initialOrder with
          status := .notAvailable
          price := midPrice + c.currentMoveDistance
          side := .sell }
      else
        { c.initialOrder with
          status := .notAvailable
          price := midPrice - c.currentMoveDistance
          side := .buy }
    status := .placingInitialOrder }

/-- The hedge order on the other side of the filled initial order. -/
def planHedgeOrder : SpreadCaptureConfig :=
  { c with
    hedgeOrder :=
      match c.initialOrder.side with
      | .buy =>
        { c.hedgeOrder with
          side := .sell
          price := c.initialOrder.price + c.currentTakeProfit
          status := .notAvailable }
      | .sell =>
        { c.hedgeOrder with
          side := .buy
          price := c.initialOrder.price - c.currentTakeProfit
          status := .notAvailable }
    status := .placingHedgeOrder }

/-- The end of a cycle. -/
def endCycle : SpreadCaptureConfig :=
  { c with
    initialOrder := c.initialOrder.setNull
    hedgeOrder := c.hedgeOrder.setNull
    status := .none }

/-- The distance between the two orders of a cycle. -/
def spread : ℚ := |c.initialOrder.price - c.hedgeOrder.price|

/-- The price has moved too far against the initial order. -/
def stopped (midPrice : ℚ) : Bool :=
  match c.initialOrder.side with
  | .buy => midPrice < c.initialOrder.price - c.stopLoss
  | .sell => c.initialOrder.price + c.stopLoss < midPrice

/-- The part of `handle_order_book_snapshot` that runs once the mean is known. -/
def advance (midPrice : ℚ) : SpreadCaptureConfig :=
  match c.status with
  | .none | .placingInitialOrder =>
    if c.initialOrder.status ≠ .filled then c.rescale.planInitialOrder midPrice
    else c.rescale.planHedgeOrder
  | .placingHedgeOrder =>
    if c.hedgeOrder.status = .new then { c with status := .waitingForHedgeOrderFilled } else c
  | .waitingForHedgeOrderFilled =>
    if c.hedgeOrder.status = .filled then
      { c with success := c.success + 1, profit := c.profit + c.spread }.endCycle
    else if c.stopped midPrice then { c with status := .stopLoss }
    else c
  | .stopLoss =>
    if c.hedgeOrder.status = .filled then
      { c with fail := c.fail + 1, loss := c.loss + c.spread * -1 }.endCycle
    else c

/-- The order of the phase the plan is in. -/
def storeOrder (order : Order) : SpreadCaptureConfig :=
  match c.status with
  | .placingInitialOrder => { c with initialOrder := order }
  | .placingHedgeOrder | .waitingForHedgeOrderFilled | .stopLoss => { c with hedgeOrder := order }
  | .none => c

/-! ### One case of `advance` after the other -/

variable {c} {midPrice : ℚ}

/-- Until the initial order is filled it is planned anew. -/
theorem advance_of_not_filled (hstatus : c.status = .none ∨ c.status = .placingInitialOrder)
    (h : c.initialOrder.status ≠ .filled) :
    c.advance midPrice = c.rescale.planInitialOrder midPrice := by
  rcases hstatus with hstatus | hstatus <;> simp only [advance, hstatus, if_pos h]

/-- A filled initial order is hedged. -/
theorem advance_of_filled (hstatus : c.status = .placingInitialOrder)
    (h : c.initialOrder.status = .filled) : c.advance midPrice = c.rescale.planHedgeOrder := by
  simp [advance, hstatus, h]

/-- The side of the planned initial order. -/
theorem planInitialOrder_side :
    (c.planInitialOrder midPrice).initialOrder.side =
      if c.meanPrice < midPrice then .sell else .buy := by
  rw [planInitialOrder]
  split_ifs <;> rfl

theorem planInitialOrder_orderStatus :
    (c.planInitialOrder midPrice).initialOrder.status = .notAvailable := by
  rw [planInitialOrder]
  split_ifs <;> rfl

/-- The planned hedge order is on the other side, and not filled yet. -/
theorem planHedgeOrder_hedgeOrder :
    c.planHedgeOrder.hedgeOrder.side = c.initialOrder.side.opposite ∧
      c.planHedgeOrder.hedgeOrder.status = .notAvailable := by
  rw [planHedgeOrder]
  cases c.initialOrder.side <;> exact ⟨rfl, rfl⟩

/-- **Once the hedge order is out**, it is waited for or given up, or the cycle ends with it
filled. -/
theorem advance_of_isHedging (hstatus : c.status.isHedging)
    (hplacing : c.status = .placingHedgeOrder → c.hedgeOrder.status = .new) :
    (((c.advance midPrice).status = .waitingForHedgeOrderFilled ∨
        (c.advance midPrice).status = .stopLoss) ∧
      (c.advance midPrice).hedgeOrder = c.hedgeOrder) ∨
    (c.hedgeOrder.status = .filled ∧ (c.advance midPrice).status = .none ∧
      (c.advance midPrice).initialOrder.status = .notAvailable) := by
  cases h : c.status with
  | none | placingInitialOrder =>
    rw [h] at hstatus
    cases hstatus
  | placingHedgeOrder => simp [advance, h, hplacing h]
  | waitingForHedgeOrderFilled =>
    simp only [advance, h]
    split_ifs with hfilled
    · exact .inr ⟨hfilled, rfl, rfl⟩
    · exact .inl ⟨.inr rfl, rfl⟩
    · exact .inl ⟨.inl h, rfl⟩
  | stopLoss =>
    simp only [advance, h]
    split_ifs with hfilled
    · exact .inr ⟨hfilled, rfl, rfl⟩
    · exact .inl ⟨.inr h, rfl⟩

end SpreadCaptureConfig

/-! ## The mean and the deviation of the last prices -/

/-- `VolatilityEstimator`. -/
structure VolatilityEstimator where
  prices : List ℚ := []
  currentPrice : ℚ := 0
  prevPrice : ℚ := 0

namespace VolatilityEstimator

/-- The number of prices looked at. -/
def window : ℕ := 150

variable (v : VolatilityEstimator)

def reset : VolatilityEstimator := { v with prices := [] }

def update (price : ℚ) : VolatilityEstimator where
  prices :=
    if window < (v.prices ++ [price]).length then (v.prices ++ [price]).tail
    else v.prices ++ [price]
  prevPrice := v.currentPrice
  currentPrice := price

/-- The mean is 0 until the window is full. -/
def mean : ℚ := if v.prices.length < window then 0 else v.prices.sum / v.prices.length

def stddev (sqrt : ℚ → ℚ) : ℚ :=
  sqrt ((v.prices.map fun p => (p - v.mean) * (p - v.mean)).sum / v.prices.length)

end VolatilityEstimator

/-- `SpreadCaptureConfigManager`. -/
structure SpreadCaptureConfigManager where
  spreadCapture : SpreadCaptureConfig := {}
  volatilityEstimator : VolatilityEstimator := {}

namespace SpreadCaptureConfigManager

variable (m : SpreadCaptureConfigManager)

def reset : SpreadCaptureConfigManager where
  spreadCapture := m.spreadCapture.reset
  volatilityEstimator := m.volatilityEstimator.reset

/-- The status of an order is copied into the plan when it is new or filled. -/
def handleOrderUpdate (order : Order) : SpreadCaptureConfigManager :=
  match order.status with
  | .new | .filled => { m with spreadCapture := m.spreadCapture.storeOrder order }
  | .notAvailable | .canceled | .rejected | .partiallyFilled => m

/-- The estimator after a snapshot. -/
def nextEstimator (snapshot : OrderBookSnapShot) : VolatilityEstimator :=
  m.volatilityEstimator.update snapshot.getMidPrice

/-- The plan with the mean and the volatility of a snapshot. -/
def measured (sqrt : ℚ → ℚ) (snapshot : OrderBookSnapShot) : SpreadCaptureConfig :=
  { m.spreadCapture with
    volatility := (m.nextEstimator snapshot).stddev sqrt
    meanPrice := (m.nextEstimator snapshot).mean }

def handleOrderBookSnapshot (sqrt : ℚ → ℚ) (snapshot : OrderBookSnapShot) :
    SpreadCaptureConfigManager where
  spreadCapture :=
    -- not enough data to calculate the mean price
    if (m.nextEstimator snapshot).mean = 0 then m.measured sqrt snapshot
    else (m.measured sqrt snapshot).advance snapshot.getMidPrice
  volatilityEstimator := m.nextEstimator snapshot

end SpreadCaptureConfigManager

end TradingEngine
