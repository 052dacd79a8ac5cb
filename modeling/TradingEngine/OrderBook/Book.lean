import TradingEngine.OrderBook.Side
import TradingEngine.OrderBook.Snapshot

/-!
# OrderBook/Book — two sides over one window, rebased together

An `OrderBook` is a bid side and an ask side on the same geometry.  After each update it may
*rebase*: when either top comes close to the end of the window, both sides move to a window centred
on the best bid.  That the two sides share base, tick and depth is carried by the structure.
-/

namespace TradingEngine

/-- `OrderBookUpdateType`. -/
inductive OrderBookUpdateType
  | add
  | update
  | remove
  deriving DecidableEq, Repr

/-- `OrderBookUpdate`, without its trace id. -/
structure OrderBookUpdate where
  instrument : Option Instrument
  side : OrderBookSideType
  type : OrderBookUpdateType
  price : ℚ
  quantity : ℚ

/-- `OrderBook`: two sides on one geometry. -/
structure OrderBook where
  bids : OrderBookSide
  asks : OrderBookSide
  instrument : Option Instrument
  rebaseDelta : ℚ
  bids_side : bids.side = .bid
  asks_side : asks.side = .ask
  same_base : asks.basePrice = bids.basePrice
  same_tick : asks.tickSize = bids.tickSize
  same_depth : asks.depth = bids.depth

namespace OrderBook

/-- The members as the constructor initialises them, for a tick and a depth the sides accept. -/
def fresh (instrument : Option Instrument) (basePrice tickSize : ℚ) (depth : ℕ) (rebaseDelta : ℚ)
    (tick_pos : 0 < tickSize) (depth_pos : 0 < depth) (depth_le : depth ≤ maxSize) : OrderBook where
  bids := .fresh .bid basePrice tickSize depth tick_pos depth_pos depth_le
  asks := .fresh .ask basePrice tickSize depth tick_pos depth_pos depth_le
  instrument := instrument
  rebaseDelta := rebaseDelta
  bids_side := rfl
  asks_side := rfl
  same_base := rfl
  same_tick := rfl
  same_depth := rfl

/-- The constructor with an explicit rebase delta: the bid side is built first, and its checks are
those of the ask side. -/
def create (instrument : Option Instrument) (basePrice tickSize : ℚ) (depth : ℕ)
    (rebaseDelta : ℚ) : Except String OrderBook :=
  if hle : depth ≤ maxSize then
    if ht : 0 < tickSize then
      if hd : 0 < depth then .ok (fresh instrument basePrice tickSize depth rebaseDelta ht hd hle)
      else .error "depth must be positive"
    else .error "tick_size must be positive"
  else .error "cannot create std::vector larger than max_size()"

/-- `DEFAULT_REBASE_DELTA_RATIO`. -/
def defaultRebaseDeltaRatio : ℚ := 1 / 10

/-- The constructor that takes a tenth of the window as rebase delta. -/
def createDefault (instrument : Option Instrument) (basePrice tickSize : ℚ) (depth : ℕ) :
    Except String OrderBook :=
  create instrument basePrice tickSize depth (tickSize * depth * defaultRebaseDeltaRatio)

variable (b : OrderBook)

/-- `get_mutable_side(side).set_level(price, quantity)`. -/
def setSideLevel (side : OrderBookSideType) (price quantity : ℚ) : OrderBook :=
  match side with
  | .bid =>
    { b with
      bids := b.bids.setLevel price quantity
      bids_side := by rw [OrderBookSide.setLevel_side, b.bids_side]
      same_base := by rw [OrderBookSide.setLevel_basePrice, b.same_base]
      same_tick := by rw [OrderBookSide.setLevel_tickSize, b.same_tick]
      same_depth := by rw [OrderBookSide.setLevel_depth, b.same_depth] }
  | .ask =>
    { b with
      asks := b.asks.setLevel price quantity
      asks_side := by rw [OrderBookSide.setLevel_side, b.asks_side]
      same_base := by rw [OrderBookSide.setLevel_basePrice, b.same_base]
      same_tick := by rw [OrderBookSide.setLevel_tickSize, b.same_tick]
      same_depth := by rw [OrderBookSide.setLevel_depth, b.same_depth] }

/-- `get_mutable_side(side).remove_level(price)`. -/
def removeSideLevel (side : OrderBookSideType) (price : ℚ) : OrderBook :=
  b.setSideLevel side price 0

def reset : OrderBook :=
  { b with
    bids := b.bids.clear
    asks := b.asks.clear
    bids_side := b.bids_side
    asks_side := b.asks_side
    same_base := b.same_base
    same_tick := b.same_tick
    same_depth := b.same_depth }

def hasBestBid : Bool := b.bids.hasTop

def hasBestAsk : Bool := b.asks.hasTop

def bestBidPrice : ℚ := b.bids.getTopPrice

def bestAskPrice : ℚ := b.asks.getTopPrice

def bestBidQuantity : ℚ := b.bids.getTopQuantity

def bestAskQuantity : ℚ := b.asks.getTopQuantity

def hasSpread : Bool := b.hasBestBid && b.hasBestAsk

def getBidQuantity (price : ℚ) : ℚ := b.bids.getQuantity price

def getAskQuantity (price : ℚ) : ℚ := b.asks.getQuantity price

def shouldRebase : Bool :=
  b.hasSpread &&
    (b.bids.inRebaseTriggerZone b.bestBidPrice b.rebaseDelta ||
      b.asks.inRebaseTriggerZone b.bestAskPrice b.rebaseDelta)

def moveToNewBasePrice (newBasePrice : ℚ) : OrderBook :=
  { b with
    bids := b.bids.moveToNewBasePrice newBasePrice
    asks := b.asks.moveToNewBasePrice newBasePrice
    bids_side := by rw [OrderBookSide.moveToNewBasePrice_side, b.bids_side]
    asks_side := by rw [OrderBookSide.moveToNewBasePrice_side, b.asks_side]
    same_base := by simp
    same_tick := by simpa using b.same_tick
    same_depth := by simpa using b.same_depth }

def maybeRebase : OrderBook :=
  if b.shouldRebase then b.moveToNewBasePrice b.bestBidPrice else b

def applyUpdateWithoutRebase (u : OrderBookUpdate) : OrderBook :=
  match u.type with
  | .add | .update => b.setSideLevel u.side u.price u.quantity
  | .remove => b.removeSideLevel u.side u.price

/-- `apply_update(const OrderBookUpdate&)`. -/
def applyUpdate (u : OrderBookUpdate) : OrderBook := (b.applyUpdateWithoutRebase u).maybeRebase

/-- One loop of `apply_update(const OrderBookSnapShot&)`: the levels of one side, in order. -/
def setSideLevels (side : OrderBookSideType) (levels : List OrderBookLevel) : OrderBook :=
  levels.foldl (fun b l => b.setSideLevel side l.price l.quantity) b

/-- `apply_update(const OrderBookSnapShot&)`, up to its last line. -/
def loadSnapshot (snapshot : OrderBookSnapShot) : OrderBook :=
  (b.reset.setSideLevels .bid snapshot.bidLevels).setSideLevels .ask snapshot.askLevels

/-- `apply_update(const OrderBookSnapShot&)`. -/
def applySnapshot (snapshot : OrderBookSnapShot) : OrderBook :=
  (b.loadSnapshot snapshot).maybeRebase

/-! ## One side at a time -/

/-- The side of a type. -/
def getSide : OrderBookSideType → OrderBookSide
  | .bid => b.bids
  | .ask => b.asks

theorem getSide_side (t : OrderBookSideType) : (b.getSide t).side = t := by
  cases t
  · exact b.bids_side
  · exact b.asks_side

/-- The base both sides are centred on. -/
def basePrice : ℚ := b.bids.basePrice

def tickSize : ℚ := b.bids.tickSize

def depth : ℕ := b.bids.depth

@[simp] theorem getSide_basePrice (t : OrderBookSideType) :
    (b.getSide t).basePrice = b.basePrice := by
  cases t
  · rfl
  · exact b.same_base

@[simp] theorem getSide_tickSize (t : OrderBookSideType) : (b.getSide t).tickSize = b.tickSize := by
  cases t
  · rfl
  · exact b.same_tick

@[simp] theorem getSide_depth (t : OrderBookSideType) : (b.getSide t).depth = b.depth := by
  cases t
  · rfl
  · exact b.same_depth

theorem getSide_setSideLevel (t t' : OrderBookSideType) (price quantity : ℚ) :
    (b.setSideLevel t price quantity).getSide t' =
      if t' = t then (b.getSide t').setLevel price quantity else b.getSide t' := by
  cases t <;> cases t' <;> rfl

theorem getSide_reset (t : OrderBookSideType) : b.reset.getSide t = (b.getSide t).clear := by
  cases t <;> rfl

theorem getSide_moveToNewBasePrice (t : OrderBookSideType) (p : ℚ) :
    (b.moveToNewBasePrice p).getSide t = (b.getSide t).moveToNewBasePrice p := by
  cases t <;> rfl

@[simp] theorem setSideLevel_basePrice (t : OrderBookSideType) (price quantity : ℚ) :
    (b.setSideLevel t price quantity).basePrice = b.basePrice := by
  cases t
  · exact b.bids.setLevel_basePrice price quantity
  · rfl

@[simp] theorem setSideLevel_tickSize (t : OrderBookSideType) (price quantity : ℚ) :
    (b.setSideLevel t price quantity).tickSize = b.tickSize := by
  cases t
  · exact b.bids.setLevel_tickSize price quantity
  · rfl

@[simp] theorem setSideLevel_depth (t : OrderBookSideType) (price quantity : ℚ) :
    (b.setSideLevel t price quantity).depth = b.depth := by
  cases t
  · exact b.bids.setLevel_depth price quantity
  · rfl

@[simp] theorem setSideLevel_rebaseDelta (t : OrderBookSideType) (price quantity : ℚ) :
    (b.setSideLevel t price quantity).rebaseDelta = b.rebaseDelta := by
  cases t <;> rfl

theorem create_eq_ok {i : Option Instrument} {p t : ℚ} {d : ℕ} {delta : ℚ} {b : OrderBook}
    (h : create i p t d delta = .ok b) : ∃ ht hd hle, b = fresh i p t d delta ht hd hle := by
  rw [create] at h
  split_ifs at h with hle ht hd
  exact ⟨ht, hd, hle, (Except.ok.inj h).symm⟩

end OrderBook

end TradingEngine
