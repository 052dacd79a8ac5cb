import Mathlib.Data.Rat.Defs
import Mathlib.Tactic.FieldSimp
import Mathlib.Tactic.Linarith
import Mathlib.Tactic.Ring
import TradingEngine.Machinery.Run

/-!
# Pnl/Pnl — position, average price and profit of a sequence of trades

`PnL` keeps a signed position with its average entry price, the profit realised by closing parts of
it, and the unrealised profit at the current price.  A trade either increases the position (its fee
goes into the average price), closes part or all of it, or flips it (the fee goes into the realised
profit).  Doubles are exact rationals.
-/

namespace TradingEngine

/-- `PnL`, the numbers of it. -/
structure PnL where
  volume : ℚ := 0
  avgPrice : ℚ := 0
  currentPrice : ℚ := 0
  realized : ℚ := 0
  realizedProfit : ℚ := 0
  realizedLoss : ℚ := 0
  unrealized : ℚ := 0
  deriving DecidableEq

namespace PnL

/-- The volume below which a trade or a position counts as none. -/
def epsilon : ℚ := 1 / 10 ^ 12

variable (s : PnL)

def reset (_ : PnL) : PnL := {}

def updateRealizedProfitLoss (value : ℚ) : PnL :=
  if 0 < value then
    { s with realizedProfit := s.realizedProfit + value, realized := s.realized + value }
  else { s with realizedLoss := s.realizedLoss + value, realized := s.realized + value }

def updateCurrentPrice (price : ℚ) : PnL :=
  { s with currentPrice := price, unrealized := s.volume * (price - s.avgPrice) }

/-- Close the whole position. -/
def closeAll (price fee : ℚ) : PnL :=
  { s.updateRealizedProfitLoss (s.volume * (price - s.avgPrice) - fee) with
    volume := 0
    avgPrice := 0
    unrealized := 0 }

/-- Increase the position. -/
def increase (price volume fee : ℚ) : PnL :=
  { s with
    volume := s.volume + volume
    avgPrice := (s.avgPrice * s.volume + price * volume + fee) / (s.volume + volume) }

/-- Close the whole position and open a new one. -/
def flip (price volume fee : ℚ) : PnL :=
  { s.updateRealizedProfitLoss (s.volume * (price - s.avgPrice) - fee) with
    avgPrice := price
    volume := s.volume + volume }

/-- Close part of the position. -/
def closePart (price volume fee : ℚ) : PnL :=
  let sign : ℚ := if 0 < s.volume then 1 else -1
  { s.updateRealizedProfitLoss (sign * |volume| * (price - s.avgPrice) - fee) with
    volume := s.volume + volume }

/-- The last line of `update_trade`. -/
def markUnrealized : PnL := { s with unrealized := s.volume * (s.currentPrice - s.avgPrice) }

def updateTrade (price volume fee : ℚ) : PnL :=
  if |volume| < epsilon then s
  else if |s.volume + volume| < epsilon then (s.closeAll price fee).markUnrealized
  else if 0 < s.volume * volume then (s.increase price volume fee).markUnrealized
  else if |s.volume| < |volume| then (s.flip price volume fee).markUnrealized
  else (s.closePart price volume fee).markUnrealized

/-! ## Reading the parts back -/

@[simp] theorem updateRealizedProfitLoss_realized (v : ℚ) :
    (s.updateRealizedProfitLoss v).realized = s.realized + v := by
  rw [updateRealizedProfitLoss]
  split <;> rfl

@[simp] theorem updateRealizedProfitLoss_avgPrice (v : ℚ) :
    (s.updateRealizedProfitLoss v).avgPrice = s.avgPrice := by
  rw [updateRealizedProfitLoss]
  split <;> rfl

@[simp] theorem updateRealizedProfitLoss_currentPrice (v : ℚ) :
    (s.updateRealizedProfitLoss v).currentPrice = s.currentPrice := by
  rw [updateRealizedProfitLoss]
  split <;> rfl

end PnL

end TradingEngine
