import TradingEngine.MeanReversion.SpreadCapture
import TradingEngine.Pnl.Pnl

/-!
# MeanReversion/StateRun — the strategy that carries the plan out

`StrategyMeanReversionStateRun` keeps its own copies of the two orders of a cycle next to the
plan's, places and cancels them, and books the fills.  What it asks of the order entry is its list
of requests.  Ids come from the clock, so each handler is given the time.
-/

namespace TradingEngine

/-- What a strategy asks of `m_order_entry`. -/
inductive OrderRequest
  | place (order : Order)
  | cancel (order : Order)
  deriving DecidableEq

/-- `StrategyMeanReversionStateRun`, with the configuration values it reads. -/
structure StrategyMeanReversionStateRun where
  instrument : Instrument
  volume : ℚ := 1 / 100
  spreadCaptures : SpreadCaptureConfigManager := {}
  currentPrice : ℚ := 0
  pnl : PnL := {}
  initialOrder : Order := {}
  hedgeOrder : Order := {}

namespace StrategyMeanReversionStateRun

variable (s : StrategyMeanReversionStateRun)

/-- The status of the plan. -/
def status : SpreadCaptureStatus := s.spreadCaptures.spreadCapture.status

/-- `begin`: the two orders are left as they are. -/
def begin : StrategyMeanReversionStateRun :=
  { s with
    currentPrice := 0
    pnl := s.pnl.reset
    spreadCaptures := s.spreadCaptures.reset }

def isSameOrderInfo (order1 order2 : Order) : Bool :=
  |order1.price - order2.price| ≤ s.instrument.pricePrecision ∧
    order1.side = order2.side ∧ order1.type = order2.type

def getLimitOrder (now : OrderId) (side : OrderSide) (price quantity : ℚ) : Order where
  orderId := now
  status := .notAvailable
  instrument := some s.instrument
  side := side
  type := .limit
  price := s.instrument.getRoundUpPrice price
  quantity := quantity
  source := { type := .strategy, strategyId := .meanReversionStrategy }

/-- The price of a new attempt, half a dollar away from the market. -/
def retryPrice (side : OrderSide) : ℚ :=
  match side with
  | .buy => s.currentPrice - 1 / 2
  | .sell => s.currentPrice + 1 / 2

/-- The order of the phase the plan is in. -/
def storeOrder (order : Order) : StrategyMeanReversionStateRun :=
  match s.status with
  | .placingInitialOrder => { s with initialOrder := order }
  | .placingHedgeOrder | .waitingForHedgeOrderFilled | .stopLoss => { s with hedgeOrder := order }
  | .none => s

/-- A fill is booked with the order's total quantity and fee. -/
def bookOrder (order : Order) : StrategyMeanReversionStateRun :=
  { s with pnl := s.pnl.updateTrade order.filledPrice order.signedFilledQuantity order.fee }

/-- A rejected order is tried again on its side. -/
def retryRejected (now : OrderId) (order : Order) : List OrderRequest :=
  [.place (s.getLimitOrder now order.side (s.retryPrice order.side) s.volume)]

/-- A canceled order is placed again while the initial order is, and at the stop loss. -/
def replaceCanceled (now : OrderId) (order : Order) :
    StrategyMeanReversionStateRun × List OrderRequest :=
  let planned := s.spreadCaptures.spreadCapture.initialOrder
  let initial := s.getLimitOrder now planned.side planned.price s.volume
  let hedge := s.getLimitOrder now order.side (s.retryPrice order.side) s.volume
  match s.status with
  | .placingInitialOrder => ({ s with initialOrder := initial }, [.place initial])
  | .stopLoss => ({ s with hedgeOrder := hedge }, [.place hedge])
  | .none | .placingHedgeOrder | .waitingForHedgeOrderFilled => (s, [])

def handleOrderUpdate (now : OrderId) (order : Order) :
    StrategyMeanReversionStateRun × List OrderRequest :=
  let s := { s with spreadCaptures := s.spreadCaptures.handleOrderUpdate order }
  match order.status with
  | .new => (s.storeOrder order, [])
  | .rejected => (s, s.retryRejected now order)
  | .filled => ((s.bookOrder order).storeOrder order, [])
  | .canceled => s.replaceCanceled now order
  | .partiallyFilled | .notAvailable => (s, [])

/-- The strategy with a snapshot taken in, before it acts on it. -/
def observe (sqrt : ℚ → ℚ) (snapshot : OrderBookSnapShot) : StrategyMeanReversionStateRun :=
  { s with
    currentPrice := snapshot.getMidPrice
    pnl := s.pnl.updateCurrentPrice snapshot.getMidPrice
    spreadCaptures := s.spreadCaptures.handleOrderBookSnapshot sqrt snapshot }

/-- What the strategy does in the phase the plan is in. -/
def act (now : OrderId) : StrategyMeanReversionStateRun × List OrderRequest :=
  let plan := s.spreadCaptures.spreadCapture
  match s.status with
  | .placingInitialOrder =>
    if s.initialOrder.isNull then
      let order := s.getLimitOrder now .buy plan.initialOrder.price s.volume
      ({ s with initialOrder := order }, [.place order])
    else if s.initialOrder.status = .new ∧
        s.isSameOrderInfo s.initialOrder plan.initialOrder = false then
      ({ s with initialOrder := { s.initialOrder with status := .notAvailable } },
        [.cancel s.initialOrder])
    else (s, [])
  | .placingHedgeOrder =>
    let order := s.getLimitOrder now plan.hedgeOrder.side plan.hedgeOrder.price s.volume
    ({ s with hedgeOrder := order }, [.place order])
  | .waitingForHedgeOrderFilled =>
    if s.hedgeOrder.status = .filled then
      ({ s with initialOrder := s.initialOrder.setNull, hedgeOrder := s.hedgeOrder.setNull }, [])
    else (s, [])
  | .stopLoss =>
    if s.hedgeOrder.status = .new then
      ({ s with hedgeOrder := { s.hedgeOrder with status := .notAvailable } },
        [.cancel s.hedgeOrder])
    else (s, [])
  | .none =>
    ({ s with initialOrder := s.initialOrder.setNull, hedgeOrder := s.hedgeOrder.setNull }, [])

def handleOrderBookSnapshot (sqrt : ℚ → ℚ) (now : OrderId) (snapshot : OrderBookSnapShot) :
    StrategyMeanReversionStateRun × List OrderRequest :=
  if snapshot.instrument ≠ some s.instrument then (s, []) else (s.observe sqrt snapshot).act now

/-! ## What the strategy asks for -/

/-- The orders placed by a list of requests. -/
def placements (requests : List OrderRequest) : List Order :=
  requests.filterMap fun
    | .place order => some order
    | .cancel _ => none

variable {s} (now : OrderId)

@[simp] theorem act_spreadCaptures : (s.act now).1.spreadCaptures = s.spreadCaptures := by
  rw [act]
  split <;> (try split_ifs) <;> rfl

@[simp] theorem act_volume : (s.act now).1.volume = s.volume := by
  rw [act]
  split <;> (try split_ifs) <;> rfl

/-- With no initial order out, one is bought at the planned price. -/
theorem act_of_isNull (hstatus : s.status = .placingInitialOrder)
    (hnull : s.initialOrder.isNull) :
    s.act now =
      ({ s with
          initialOrder := s.getLimitOrder now .buy
            s.spreadCaptures.spreadCapture.initialOrder.price s.volume },
        [.place (s.getLimitOrder now .buy
          s.spreadCaptures.spreadCapture.initialOrder.price s.volume)]) := by
  simp only [act, hstatus, if_pos hnull]

/-- With an initial order out, no other is placed. -/
theorem act_of_placed (hstatus : s.status = .placingInitialOrder)
    (hid : s.initialOrder.orderId ≠ 0) :
    placements (s.act now).2 = [] ∧ (s.act now).1.initialOrder.orderId ≠ 0 := by
  have hnull : ¬ s.initialOrder.isNull = true := by simp [Order.isNull, hid]
  simp only [act, hstatus, if_neg hnull]
  split_ifs <;> exact ⟨rfl, hid⟩

/-- Each snapshot in this phase places a hedge order. -/
theorem act_of_placingHedgeOrder (hstatus : s.status = .placingHedgeOrder) :
    placements (s.act now).2 =
      [s.getLimitOrder now s.spreadCaptures.spreadCapture.hedgeOrder.side
        s.spreadCaptures.spreadCapture.hedgeOrder.price s.volume] := by
  simp only [act, hstatus]
  rfl

/-- Once the hedge order is out, nothing is placed on a snapshot. -/
theorem act_of_waiting
    (hstatus : s.status = .waitingForHedgeOrderFilled ∨ s.status = .stopLoss) :
    placements (s.act now).2 = [] := by
  rcases hstatus with hstatus | hstatus <;> simp only [act, hstatus] <;> split_ifs <;> rfl

/-- Between two cycles both orders are forgotten. -/
theorem act_of_none (hstatus : s.status = .none) :
    placements (s.act now).2 = [] ∧ (s.act now).1.initialOrder.isNull := by
  simp only [act, hstatus]
  exact ⟨rfl, by simp [Order.isNull, Order.setNull]⟩

variable {order : Order}

/-- **A new or filled initial order** is copied to the plan and the strategy. -/
theorem handleOrderUpdate_of_opening (hstatus : s.status = .placingInitialOrder)
    (h : order.status = .new ∨ order.status = .filled) :
    ∃ pnl, s.handleOrderUpdate now order =
      ({ s with
          pnl := pnl
          initialOrder := order
          spreadCaptures :=
            { s.spreadCaptures with
              spreadCapture := { s.spreadCaptures.spreadCapture with initialOrder := order } } },
        []) := by
  rw [status] at hstatus
  rcases h with h | h <;>
    simp [handleOrderUpdate, SpreadCaptureConfigManager.handleOrderUpdate,
      SpreadCaptureConfig.storeOrder, storeOrder, bookOrder, status, h, hstatus]

/-- **A new or filled hedge order** is copied to the plan and the strategy. -/
theorem handleOrderUpdate_of_isHedging (hstatus : s.status.isHedging)
    (h : order.status = .new ∨ order.status = .filled) :
    ∃ pnl, s.handleOrderUpdate now order =
      ({ s with
          pnl := pnl
          hedgeOrder := order
          spreadCaptures :=
            { s.spreadCaptures with
              spreadCapture := { s.spreadCaptures.spreadCapture with hedgeOrder := order } } },
        []) := by
  rw [status] at hstatus
  cases hplan : s.spreadCaptures.spreadCapture.status with
  | none | placingInitialOrder => rw [hplan] at hstatus; cases hstatus
  | placingHedgeOrder | waitingForHedgeOrderFilled | stopLoss =>
    rcases h with h | h <;>
      simp [handleOrderUpdate, SpreadCaptureConfigManager.handleOrderUpdate,
        SpreadCaptureConfig.storeOrder, storeOrder, bookOrder, status, h, hplan]

theorem handleOrderUpdate_of_rejected (h : order.status = .rejected) :
    s.handleOrderUpdate now order = (s, s.retryRejected now order) := by
  simp [handleOrderUpdate, SpreadCaptureConfigManager.handleOrderUpdate, h]

theorem handleOrderUpdate_of_canceled (h : order.status = .canceled) :
    s.handleOrderUpdate now order = s.replaceCanceled now order := by
  simp [handleOrderUpdate, SpreadCaptureConfigManager.handleOrderUpdate, h]

theorem replaceCanceled_of_opening (hstatus : s.status = .placingInitialOrder) :
    s.replaceCanceled now order =
      ({ s with
          initialOrder := s.getLimitOrder now s.spreadCaptures.spreadCapture.initialOrder.side
            s.spreadCaptures.spreadCapture.initialOrder.price s.volume },
        [.place (s.getLimitOrder now s.spreadCaptures.spreadCapture.initialOrder.side
          s.spreadCaptures.spreadCapture.initialOrder.price s.volume)]) := by
  simp only [replaceCanceled, hstatus]

theorem replaceCanceled_of_stopLoss (hstatus : s.status = .stopLoss) :
    s.replaceCanceled now order =
      ({ s with
          hedgeOrder := s.getLimitOrder now order.side (s.retryPrice order.side) s.volume },
        [.place (s.getLimitOrder now order.side (s.retryPrice order.side) s.volume)]) := by
  simp only [replaceCanceled, hstatus]

theorem replaceCanceled_of_waiting (hstatus : s.status.isHedging) (hstop : s.status ≠ .stopLoss) :
    s.replaceCanceled now order = (s, []) := by
  cases h : s.status with
  | none | placingInitialOrder => rw [h] at hstatus; cases hstatus
  | stopLoss => exact absurd h hstop
  | placingHedgeOrder | waitingForHedgeOrderFilled => simp only [replaceCanceled, h]

theorem handleOrderUpdate_of_partiallyFilled (h : order.status = .partiallyFilled) :
    s.handleOrderUpdate now order = (s, []) := by
  simp [handleOrderUpdate, SpreadCaptureConfigManager.handleOrderUpdate, h]

variable (s)

theorem handleOrderBookSnapshot_volume {sqrt : ℚ → ℚ} {snapshot : OrderBookSnapShot} :
    (s.handleOrderBookSnapshot sqrt now snapshot).1.volume = s.volume := by
  rw [handleOrderBookSnapshot]
  split_ifs
  · rfl
  · exact act_volume now

/-! ## What an order update leaves alone -/

variable (order)

theorem storeOrder_pnl : (s.storeOrder order).pnl = s.pnl := by
  rw [storeOrder]
  split <;> rfl

theorem storeOrder_volume : (s.storeOrder order).volume = s.volume := by
  rw [storeOrder]
  split <;> rfl

theorem replaceCanceled_pnl : (s.replaceCanceled now order).1.pnl = s.pnl := by
  rw [replaceCanceled]
  split <;> rfl

theorem replaceCanceled_volume : (s.replaceCanceled now order).1.volume = s.volume := by
  rw [replaceCanceled]
  split <;> rfl

theorem handleOrderUpdate_volume : (s.handleOrderUpdate now order).1.volume = s.volume := by
  rw [handleOrderUpdate]
  cases order.status with
  | notAvailable | rejected | partiallyFilled => rfl
  | new | filled => exact storeOrder_volume _ order
  | canceled => exact replaceCanceled_volume _ now order

/-- **Only a filled order is booked.** -/
theorem handleOrderUpdate_pnl :
    (s.handleOrderUpdate now order).1.pnl =
      if order.status = .filled then
        s.pnl.updateTrade order.filledPrice order.signedFilledQuantity order.fee
      else s.pnl := by
  rw [handleOrderUpdate]
  cases order.status with
  | notAvailable | rejected | partiallyFilled => rfl
  | new | filled => exact storeOrder_pnl _ order
  | canceled => exact replaceCanceled_pnl _ now order

end StrategyMeanReversionStateRun

end TradingEngine
