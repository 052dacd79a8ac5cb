import TradingEngine.Instrument

/-!
# Order/Order — an order, and how the exchange's messages become one

An `Order` is both what a strategy asks for and what the exchange reports.  `OrderTradeUpdate` is
the `ORDER_TRADE_UPDATE` message of the perpetual quoter, with the field names of the wire.
-/

namespace TradingEngine

/-- `OrderId`. -/
abbrev OrderId := ℕ

/-- `Order::Status`. -/
inductive OrderStatus
  | notAvailable
  | new
  | canceled
  | rejected
  | partiallyFilled
  | filled
  deriving DecidableEq, Repr

/-- `enum_reflect::enum_name` on a status. -/
def OrderStatus.name : OrderStatus → String
  | .notAvailable => "NOT_AVAILABLE"
  | .new => "NEW"
  | .canceled => "CANCELED"
  | .rejected => "REJECTED"
  | .partiallyFilled => "PARTIALLY_FILLED"
  | .filled => "FILLED"

instance : Reflected OrderStatus where
  enumerators := [.notAvailable, .new, .canceled, .rejected, .partiallyFilled, .filled]
  value
    | .notAvailable => 0
    | .new => 1
    | .canceled => 2
    | .rejected => 3
    | .partiallyFilled => 4
    | .filled => 5
  name := OrderStatus.name
  zero := .notAvailable
  mem_enumerators e := by cases e <;> decide
  names_nodup := by decide
  value_zero := rfl

/-- `Order::Side`. -/
inductive OrderSide
  | buy
  | sell
  deriving DecidableEq, Repr

instance : Reflected OrderSide where
  enumerators := [.buy, .sell]
  value
    | .buy => 0
    | .sell => 1
  name
    | .buy => "BUY"
    | .sell => "SELL"
  zero := .buy
  mem_enumerators e := by cases e <;> decide
  names_nodup := by decide
  value_zero := rfl

/-- `enum_reflect::enum_value` on a side: an unknown name reads as the first value. -/
def OrderSide.ofName (name : String) : OrderSide := if name = "SELL" then .sell else .buy

/-- The other side. -/
def OrderSide.opposite : OrderSide → OrderSide
  | .buy => .sell
  | .sell => .buy

/-- `Order::OrderType`. -/
inductive OrderType
  | limit
  | market
  | takeProfitMarket
  | stopLossMarket
  | takeProfitLimit
  | stopLossLimit
  | trailingStopMarket
  | postOnly
  | totalOrderTypes
  deriving DecidableEq, Repr

instance : Reflected OrderType where
  enumerators := [.limit, .market, .takeProfitMarket, .stopLossMarket, .takeProfitLimit,
    .stopLossLimit, .trailingStopMarket, .postOnly, .totalOrderTypes]
  value
    | .limit => 0
    | .market => 1
    | .takeProfitMarket => 2
    | .stopLossMarket => 3
    | .takeProfitLimit => 4
    | .stopLossLimit => 5
    | .trailingStopMarket => 6
    | .postOnly => 7
    | .totalOrderTypes => 8
  name
    | .limit => "LIMIT"
    | .market => "MARKET"
    | .takeProfitMarket => "TAKE_PROFIT_MARKET"
    | .stopLossMarket => "STOP_LOSS_MARKET"
    | .takeProfitLimit => "TAKE_PROFIT_LIMIT"
    | .stopLossLimit => "STOP_LOSS_LIMIT"
    | .trailingStopMarket => "TRAILING_STOP_MARKET"
    | .postOnly => "POST_ONLY"
    | .totalOrderTypes => "TOTAL_ORDER_TYPES"
  zero := .limit
  mem_enumerators e := by cases e <;> decide
  names_nodup := by decide
  value_zero := rfl

/-- `enum_reflect::enum_value` on a type: an unknown name reads as the first value. -/
def OrderType.ofName (name : String) : OrderType :=
  if name = "MARKET" then .market
  else if name = "TAKE_PROFIT_MARKET" then .takeProfitMarket
  else if name = "STOP_LOSS_MARKET" then .stopLossMarket
  else if name = "TAKE_PROFIT_LIMIT" then .takeProfitLimit
  else if name = "STOP_LOSS_LIMIT" then .stopLossLimit
  else if name = "TRAILING_STOP_MARKET" then .trailingStopMarket
  else if name = "POST_ONLY" then .postOnly
  else if name = "TOTAL_ORDER_TYPES" then .totalOrderTypes
  else .limit

/-- `Order::Error`. -/
structure OrderError where
  code : ℤ := 0
  message : String := ""
  deriving DecidableEq

/-- `Order::Source::SourceType`. -/
inductive SourceType
  | notAvailable
  | simulator
  | web
  | ios
  | android
  | strategy
  deriving DecidableEq, Repr

instance : Reflected SourceType where
  enumerators := [.notAvailable, .simulator, .web, .ios, .android, .strategy]
  value
    | .notAvailable => 0
    | .simulator => 1
    | .web => 2
    | .ios => 3
    | .android => 4
    | .strategy => 5
  name
    | .notAvailable => "NOT_AVAILABLE"
    | .simulator => "SIMULATOR"
    | .web => "WEB"
    | .ios => "IOS"
    | .android => "ANDROID"
    | .strategy => "STRATEGY"
  zero := .notAvailable
  mem_enumerators e := by cases e <;> decide
  names_nodup := by decide
  value_zero := rfl

/-- `EventBaseID`: some event bases are strategies. -/
inductive EventBaseId
  | none
  | epollSystemIoTask
  | epollGateway
  | order
  | orderBook
  | marketMakerStrategy
  | buySpotStrategy
  | meanReversionStrategy
  | priceArbitrageStrategy
  | trendFollowStrategy
  | noStrategy
  | total
  deriving DecidableEq, Repr

instance : Reflected EventBaseId where
  enumerators := [.none, .epollSystemIoTask, .epollGateway, .order, .orderBook,
    .marketMakerStrategy, .buySpotStrategy, .meanReversionStrategy, .priceArbitrageStrategy,
    .trendFollowStrategy, .noStrategy, .total]
  value
    | .none => -1
    | .epollSystemIoTask => 0
    | .epollGateway => 1
    | .order => 2
    | .orderBook => 3
    | .marketMakerStrategy => 4
    | .buySpotStrategy => 5
    | .meanReversionStrategy => 6
    | .priceArbitrageStrategy => 7
    | .trendFollowStrategy => 8
    | .noStrategy => 9
    | .total => 10
  name
    | .none => "NONE"
    | .epollSystemIoTask => "EPOLL_SYSTEM_IO_TASK"
    | .epollGateway => "EPOLL_GATEWAY"
    | .order => "ORDER"
    | .orderBook => "ORDER_BOOK"
    | .marketMakerStrategy => "MARKET_MAKER_STRATEGY"
    | .buySpotStrategy => "BUY_SPOT_STRATEGY"
    | .meanReversionStrategy => "MEAN_REVERSION_STRATEGY"
    | .priceArbitrageStrategy => "PRICE_ARBITRAGE_STRATEGY"
    | .trendFollowStrategy => "TREND_FOLLOW_STRATEGY"
    | .noStrategy => "NO_STRATEGY"
    | .total => "TOTAL"
  zero := .epollSystemIoTask
  mem_enumerators e := by cases e <;> decide
  names_nodup := by decide
  value_zero := rfl

/-- `Order::Source`. -/
structure OrderSource where
  type : SourceType := .notAvailable
  strategyId : EventBaseId := .noStrategy
  deriving DecidableEq

/-- `Order`, without its trace id.  A side, a type or an instrument that no constructor has set has
no value in the source; here it has the one `nullptr` gives it. -/
structure Order where
  orderId : OrderId := 0
  status : OrderStatus := .notAvailable
  instrument : Option Instrument := none
  side : OrderSide := .buy
  type : OrderType := .limit
  price : ℚ := 0
  quantity : ℚ := 0
  lastUpdated : ℕ := 0
  filledQuantity : ℚ := 0
  filledPrice : ℚ := 0
  fee : ℚ := 0
  outputQuantity : ℚ := 0
  volumnInQuoteCurrency : ℚ := 0
  commissionAsset : String := ""
  outputAsset : String := ""
  error : OrderError := {}
  source : OrderSource := {}
  deriving DecidableEq

namespace Order

/-- `order == nullptr`. -/
def isNull (o : Order) : Bool := o.orderId = 0 ∧ o.status = .notAvailable

/-- `order = nullptr`: the input data goes, the output data stays. -/
def setNull (o : Order) : Order :=
  { o with
    orderId := 0
    status := .notAvailable
    instrument := none
    side := .buy
    type := .limit
    price := 0
    quantity := 0 }

/-- The fill statuses. -/
def isFill (o : Order) : Bool := o.status = .filled ∨ o.status = .partiallyFilled

/-- The quantity of a fill with the sign of its side. -/
def signedFilledQuantity (o : Order) : ℚ :=
  match o.side with
  | .buy => o.filledQuantity
  | .sell => -o.filledQuantity

end Order

/-- An `ORDER_TRADE_UPDATE` message.  Its numbers come as decimal texts; `orderId` is
`AppUtils::parse_order_id` of the client order id `c`, and `instrument` the one of the symbol. -/
structure OrderTradeUpdate where
  c : String := ""
  orderId : OrderId
  instrument : Option Instrument := none
  S : String
  o : String := "LIMIT"
  p : ℚ := 0
  q : ℚ := 0
  X : String
  T : ℕ := 0
  l : ℚ := 0
  L : ℚ := 0
  n : ℚ := 0
  N : String := ""
  deriving DecidableEq

namespace OrderTradeUpdate

variable (u : OrderTradeUpdate)

/-- The source is read off the client order id. -/
def sourceType : SourceType :=
  if u.c.startsWith "web_coin_" then .web
  else if u.c.startsWith "ios_coin_" then .ios
  else if u.c.startsWith "android_coin_" then .android
  else .notAvailable

/-- The order before its status is looked at: a `NEW` one. -/
def baseOrder : Order where
  orderId := u.orderId
  status := .new
  instrument := u.instrument
  side := .ofName u.S
  type := .ofName u.o
  price := u.p
  quantity := u.q
  source := { type := u.sourceType }

/-- The order of a single fill. -/
def fillOrder (status : OrderStatus) : Order :=
  { u.baseOrder with
    status := status
    lastUpdated := u.T * 1000000
    filledQuantity := u.l
    filledPrice := u.L
    fee := u.n
    commissionAsset := u.N }

/-- The order handed to `OrderManager::update_order`.  An execution status that is not one of the
four leaves the order as it was built, `NEW`. -/
def toOrder : Order :=
  if u.X = "NEW" then { u.baseOrder with status := .new, lastUpdated := u.T * 1000000 }
  else if u.X = "FILLED" then u.fillOrder .filled
  else if u.X = "PARTIALLY_FILLED" then u.fillOrder .partiallyFilled
  else if u.X = "CANCELED" then
    { u.baseOrder with status := .canceled, lastUpdated := u.T * 1000000 }
  else u.baseOrder

@[simp] theorem toOrder_orderId : u.toOrder.orderId = u.orderId := by
  rw [toOrder]
  split_ifs <;> rfl

@[simp] theorem toOrder_side : u.toOrder.side = .ofName u.S := by
  rw [toOrder]
  split_ifs <;> rfl

@[simp] theorem toOrder_quantity : u.toOrder.quantity = u.q := by
  rw [toOrder]
  split_ifs <;> rfl

theorem toOrder_new (h : u.X = "NEW") :
    u.toOrder = { u.baseOrder with status := .new, lastUpdated := u.T * 1000000 } := if_pos h

theorem toOrder_filled (h : u.X = "FILLED") : u.toOrder = u.fillOrder .filled := by
  simp [toOrder, h]

theorem toOrder_partiallyFilled (h : u.X = "PARTIALLY_FILLED") :
    u.toOrder = u.fillOrder .partiallyFilled := by
  simp [toOrder, h]

theorem toOrder_canceled (h : u.X = "CANCELED") :
    u.toOrder = { u.baseOrder with status := .canceled, lastUpdated := u.T * 1000000 } := by
  simp [toOrder, h]

end OrderTradeUpdate

end TradingEngine
