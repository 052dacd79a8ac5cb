import TradingEngine.Order.OrderManager
import TradingEngine.Pnl.Pnl

/-!
# MarketMaker/StateRun — how the market maker takes order updates in

`StrategyMarketMakerStateRun` keeps its open orders, counts the filled ones and books them; partial
fills are not looked at.
-/

namespace TradingEngine

/-- `StrategyMarketMakerStateRun::FillStat`. -/
structure FillStat where
  filledBuyOrderCount : ℕ := 0
  filledSellOrderCount : ℕ := 0
  filledAtVolumeLower05 : ℕ := 0
  filledAtVolumeLower1 : ℕ := 0
  filledAtVolumeLower5 : ℕ := 0
  filledAtVolumeLower10 : ℕ := 0
  filledAtVolumeHigher10 : ℕ := 0

def FillStat.update (f : FillStat) (filledVolume : ℚ) : FillStat :=
  if filledVolume = 4 / 10 then { f with filledAtVolumeLower05 := f.filledAtVolumeLower05 + 1 }
  else if filledVolume = 3 / 10 then { f with filledAtVolumeLower1 := f.filledAtVolumeLower1 + 1 }
  else if filledVolume = 2 / 10 then { f with filledAtVolumeLower5 := f.filledAtVolumeLower5 + 1 }
  else if filledVolume = 15 / 100 then
    { f with filledAtVolumeLower10 := f.filledAtVolumeLower10 + 1 }
  else { f with filledAtVolumeHigher10 := f.filledAtVolumeHigher10 + 1 }

/-- `StrategyMarketMakerStateRun`, the members its order updates touch. -/
structure StrategyMarketMakerStateRun where
  pnl : PnL := {}
  inventory : ℚ := 0
  fillStat : FillStat := {}
  openOrders : OrderMap := ∅

namespace StrategyMarketMakerStateRun

variable (s : StrategyMarketMakerStateRun)

/-- The inventory and the counts after a filled order. -/
def countFilled (order : Order) : StrategyMarketMakerStateRun :=
  match order.side with
  | .buy =>
    { s with
      inventory := s.inventory + 1
      fillStat :=
        { s.fillStat with filledBuyOrderCount := s.fillStat.filledBuyOrderCount + 1 }.update
          order.filledQuantity }
  | .sell =>
    { s with
      inventory := s.inventory - 1
      fillStat :=
        { s.fillStat with filledSellOrderCount := s.fillStat.filledSellOrderCount + 1 }.update
          order.filledQuantity }

/-- `m_pnl.update_trade` with the order's total quantity and fee. -/
def bookOrder (order : Order) : StrategyMarketMakerStateRun :=
  { s with pnl := s.pnl.updateTrade order.filledPrice order.signedFilledQuantity order.fee }

def handleOrderUpdate (order : Order) : StrategyMarketMakerStateRun :=
  match order.status with
  | .new =>
    -- `emplace` keeps an entry that is there
    if order.orderId ∈ s.openOrders then s
    else { s with openOrders := s.openOrders.insert order.orderId order }
  | .filled =>
    let s := (s.bookOrder order).countFilled order
    { s with openOrders := s.openOrders.erase order.orderId }
  | .canceled | .rejected => { s with openOrders := s.openOrders.erase order.orderId }
  | .partiallyFilled | .notAvailable => s

/-- **Only a filled order is booked.** -/
theorem handleOrderUpdate_pnl (order : Order) :
    (s.handleOrderUpdate order).pnl =
      if order.status = .filled then
        s.pnl.updateTrade order.filledPrice order.signedFilledQuantity order.fee
      else s.pnl := by
  have hcount : ∀ (s : StrategyMarketMakerStateRun) o, (s.countFilled o).pnl = s.pnl := by
    intro s o
    rw [countFilled]
    split <;> rfl
  rw [handleOrderUpdate]
  cases order.status with
  | notAvailable => rfl
  | new => by_cases hmem : order.orderId ∈ s.openOrders <;> simp [hmem]
  | canceled => rfl
  | rejected => rfl
  | partiallyFilled => rfl
  | filled => exact hcount _ order

end StrategyMarketMakerStateRun

end TradingEngine
