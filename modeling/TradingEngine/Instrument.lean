import Mathlib.Data.Rat.Floor
import TradingEngine.EnumReflect
import TradingEngine.Machinery.Grid

/-!
# Instrument — what the engine trades

An instrument fixes the number of decimals of a price (`tickSize`) and of a quantity (`lotSize`) on
its exchange, and the tick of its order book (`pricePrecision`).  Rounding goes through the decimal
text of a double: `std::to_string` writes six decimals, `round_string_number` cuts some of them off.
-/

namespace TradingEngine

/-- `ExchangeId`. -/
inductive ExchangeId
  | noneExchange
  | binance
  | binanceTestnet
  | coinbase
  | totalExchanges
  deriving DecidableEq, Repr

instance : Reflected ExchangeId where
  enumerators := [.noneExchange, .binance, .binanceTestnet, .coinbase, .totalExchanges]
  value
    | .noneExchange => 0
    | .binance => 1
    | .binanceTestnet => 2
    | .coinbase => 3
    | .totalExchanges => 4
  name
    | .noneExchange => "NONE_EXCHANGE"
    | .binance => "BINANCE"
    | .binanceTestnet => "BINANCE_TESTNET"
    | .coinbase => "COINBASE"
    | .totalExchanges => "TOTAL_EXCHANGES"
  zero := .noneExchange
  mem_enumerators e := by cases e <;> decide
  names_nodup := by decide
  value_zero := rfl

/-- `InstrumentType`. -/
inductive InstrumentType
  | spot
  | perpetual
  | totalInstruments
  deriving DecidableEq, Repr

instance : Reflected InstrumentType where
  enumerators := [.spot, .perpetual, .totalInstruments]
  value
    | .spot => 0
    | .perpetual => 1
    | .totalInstruments => 2
  name
    | .spot => "SPOT"
    | .perpetual => "PERPETUAL"
    | .totalInstruments => "TOTAL_INSTRUMENTS"
  zero := .spot
  mem_enumerators e := by cases e <;> decide
  names_nodup := by decide
  value_zero := rfl

/-- `Instrument`.  A pointer to one is compared by address; instruments are registered once per
exchange, type and symbol, so equality of their data stands for it. -/
structure Instrument where
  exchangeId : ExchangeId
  instrumentType : InstrumentType
  symbol : String
  exchangeSymbol : String
  lotSize : ℕ
  tickSize : ℕ
  pricePrecision : ℚ
  deriving DecidableEq

namespace Instrument

/-- The constructor: a zero precision stands for `10 ^ -tick_size`. -/
def create (exchangeId : ExchangeId) (instrumentType : InstrumentType)
    (symbol exchangeSymbol : String) (lotSize tickSize : ℕ) (pricePrecision : ℚ := 0) :
    Instrument where
  exchangeId := exchangeId
  instrumentType := instrumentType
  symbol := symbol
  exchangeSymbol := exchangeSymbol
  lotSize := lotSize
  tickSize := tickSize
  pricePrecision := if pricePrecision = 0 then 1 / 10 ^ tickSize else pricePrecision

/-- The number written by `std::to_string`, in millionths. -/
def toStringMillionths (x : ℚ) : ℤ := Grid.roundHalfEven (x * 10 ^ 6)

/-- `round_string_number` on the text of `millionths`, read back: all but the first `precision`
decimals are cut off, towards zero. -/
def roundStringNumber (millionths : ℤ) (precision : ℕ) : ℚ :=
  (millionths.tdiv (10 ^ (6 - min precision 6)) : ℤ) / 10 ^ min precision 6

def getRoundUpQuantity (i : Instrument) (quantity : ℚ) : ℚ :=
  roundStringNumber (toStringMillionths quantity) i.lotSize

def getRoundUpPrice (i : Instrument) (price : ℚ) : ℚ :=
  roundStringNumber (toStringMillionths price) i.tickSize

end Instrument

end TradingEngine
