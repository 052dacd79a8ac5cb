import TradingEngine.Json.Records
import TradingEngine.Order.Persistence

/-!
# Order/JsonForm — an order as a `Json`, and read back

`to_json` and `from_json` go through two lists of keys that are kept by hand.  What is read of the
`Json` of an order is what `OrderJson` keeps of it (`ofItem_toItem`), and `ofItem_toItem_iff` says
of which orders this is everything.
-/

namespace TradingEngine

open Ascii JsonItem EnumReflect

/-! ## Enums -/

section Enums

variable {E : Type} [Reflected E]

/-- The name of an enumerator as a `Json`. -/
def enumItem (e : E) : Option JsonItem := (enumName e).map ofText

/-- `enum_value` of a text. -/
def readEnum (doubles : DoubleText) (t : JsonItem) : E := enumValue (ofUtf8 (t.toStdString doubles))

theorem enumItem_eq {e : E} (h : InTable e) : enumItem e = some (ofText (Reflected.name e)) := by
  rw [enumItem, enumName, if_pos h, Option.map_some]

theorem enumItem_of_not_inTable {e : E} (h : ¬ InTable e) : enumItem e = none := by
  rw [enumItem, enumName, if_neg h, Option.map_none]

theorem readEnum_name {e : E} (h : InTable e) (doubles : DoubleText) :
    readEnum doubles (ofText (Reflected.name e)) = e := by
  rw [readEnum, toStdString_ofText, ofUtf8_utf8, enumValue_name h]

end Enums

theorem ExchangeId.inTable (e : ExchangeId) : InTable e := by cases e <;> decide

theorem InstrumentType.inTable (e : InstrumentType) : InTable e := by cases e <;> decide

theorem OrderStatus.inTable (e : OrderStatus) : InTable e := by cases e <;> decide

theorem OrderSide.inTable (e : OrderSide) : InTable e := by cases e <;> decide

theorem OrderType.inTable (e : OrderType) : InTable e := by cases e <;> decide

theorem SourceType.inTable (e : SourceType) : InTable e := by cases e <;> decide

/-- `NONE` has the value -1. -/
theorem EventBaseId.inTable_iff (e : EventBaseId) : InTable e ↔ e ≠ .none := by
  cases e <;> decide

/-- `ofName` is `enum_value`. -/
theorem OrderSide.ofName_eq (name : String) : OrderSide.ofName name = enumValue name := by
  rw [OrderSide.ofName]
  split_ifs with h
  · rw [h]
    exact (enumValue_name OrderSide.sell.inTable).symm
  · refine (enumValue_eq_zero fun e hname => ?_).symm
    cases e with
    | buy => rfl
    | sell => exact absurd hname.symm h

theorem OrderType.ofName_eq (name : String) : OrderType.ofName name = enumValue name := by
  by_cases h : ∃ e : OrderType, Reflected.name e = name
  · obtain ⟨e, rfl⟩ := h
    rw [enumValue_name e.inTable]
    cases e <;> decide
  · have hne (e : OrderType) : name ≠ Reflected.name e := fun heq => h ⟨e, heq.symm⟩
    rw [enumValue_eq_zero fun e hname => absurd ⟨e, hname⟩ h]
    exact (if_neg (hne .market)).trans <| (if_neg (hne .takeProfitMarket)).trans <|
      (if_neg (hne .stopLossMarket)).trans <| (if_neg (hne .takeProfitLimit)).trans <|
      (if_neg (hne .stopLossLimit)).trans <| (if_neg (hne .trailingStopMarket)).trans <|
      (if_neg (hne .postOnly)).trans <| if_neg (hne .totalOrderTypes)

/-! ## Instruments -/

namespace Instrument

/-- `Instrument::to_json`. -/
def toItem (i : Instrument) : Option JsonItem := do
  let exchangeId ← enumItem i.exchangeId
  let instrumentType ← enumItem i.instrumentType
  pure (ofPairs [
    (text "exchange_id", exchangeId),
    (text "instrument_type", instrumentType),
    (text "symbol", ofText i.symbol),
    (text "exchange_symbol", ofText i.exchangeSymbol),
    (text "lot_size", ofInteger i.lotSize),
    (text "tick_size", ofInteger i.tickSize),
    (text "price_precision", ofDouble i.pricePrecision)])

/-- The conversion to `size_t`. -/
def readSize (t : JsonItem) : Option ℕ := (t.toInteger 0 (2 ^ 64 - 1)).map Int.toNat

/-- `Instrument::from_json`. -/
def ofItem (doubles : DoubleText) (data : JsonItem) : Option Instrument := do
  let lotSize ← readSize (data.field (text "lot_size"))
  let tickSize ← readSize (data.field (text "tick_size"))
  let pricePrecision ← (data.field (text "price_precision")).toDouble
  pure (.create
    (readEnum doubles (data.field (text "exchange_id")))
    (readEnum doubles (data.field (text "instrument_type")))
    (ofUtf8 ((data.field (text "symbol")).toStdString doubles))
    (ofUtf8 ((data.field (text "exchange_symbol")).toStdString doubles))
    lotSize tickSize pricePrecision)

/-- The fields of a `Json` of an instrument. -/
theorem toItem_eq (i : Instrument) :
    i.toItem = some (ofPairs [
      (text "exchange_id", ofText (Reflected.name i.exchangeId)),
      (text "instrument_type", ofText (Reflected.name i.instrumentType)),
      (text "symbol", ofText i.symbol),
      (text "exchange_symbol", ofText i.exchangeSymbol),
      (text "lot_size", ofInteger i.lotSize),
      (text "tick_size", ofInteger i.tickSize),
      (text "price_precision", ofDouble i.pricePrecision)]) := by
  rw [toItem, enumItem_eq i.exchangeId.inTable, enumItem_eq i.instrumentType.inTable]
  rfl

theorem readSize_ofInteger {n : ℕ} (h : n < 2 ^ 64) : readSize (ofInteger n) = some n := by
  rw [readSize, toInteger_ofInteger (Int.natCast_nonneg n) (by omega) (by decide), Option.map_some,
    Int.toNat_natCast]

/-- **An instrument is read back**, but for a precision of zero, which the constructor replaces. -/
theorem ofItem_toItem (doubles : DoubleText) {i : Instrument} (hlot : i.lotSize < 2 ^ 64)
    (htick : i.tickSize < 2 ^ 64) (hprecision : i.pricePrecision ≠ 0) :
    i.toItem.bind (ofItem doubles) = some i := by
  rw [toItem_eq, Option.bind_some, ofItem]
  simp (disch := (rw [text_ofList, text_ofList]; decide)) only [field_cons_self, field_cons_of_ne]
  rw [readSize_ofInteger hlot, readSize_ofInteger htick, readEnum_name i.exchangeId.inTable,
    readEnum_name i.instrumentType.inTable]
  simp only [toStdString_ofText, toDouble_ofDouble, ofUtf8_utf8]
  change some (create _ _ _ _ _ _ _) = some i
  rw [create, if_neg hprecision]

end Instrument

/-- The instruments registered, in the order they were; none is under one of the last enumerators,
which no list has a place for. -/
structure InstrumentRegistry where
  instruments : List Instrument
  declared : ∀ i ∈ instruments,
    i.exchangeId ≠ .totalExchanges ∧ i.instrumentType ≠ .totalInstruments

/-- `get_instrument_by_exchange_symbol`: `emplace` has kept the first with a symbol. -/
def InstrumentRegistry.byExchangeSymbol (registry : InstrumentRegistry) : InstrumentList :=
  fun exchangeId instrumentType symbol => registry.instruments.find? fun i =>
    i.exchangeId = exchangeId ∧ i.instrumentType = instrumentType ∧ i.exchangeSymbol = symbol

/-! ## Orders -/

/-- `Error::to_json`. -/
def OrderError.toItem (error : OrderError) : JsonItem :=
  ofPairs [(text "code", ofInteger error.code), (text "message", ofText error.message)]

namespace Order

/-- The `Json` of an order, with those of its instrument and its enumerators. -/
def item (o : Order) (instrument sourceType strategyId status side type : JsonItem) : JsonItem :=
  ofPairs [
    (text "instrument", instrument),
    (text "error", o.error.toItem),
    (text "source", ofPairs [
      (text "type", sourceType),
      (text "strategy_id", strategyId)]),
    (text "last_updated", ofInteger o.lastUpdated),
    (text "order_id", ofInteger o.orderId),
    (text "status", status),
    (text "side", side),
    (text "type", type),
    (text "price", ofDouble o.price),
    (text "quantity", ofDouble o.quantity),
    (text "filled_quantity", ofDouble o.filledQuantity),
    (text "output_quantity", ofDouble o.outputQuantity),
    (text "volumn_in_quote_currency", ofDouble o.volumnInQuoteCurrency),
    (text "output_asset", ofText o.commissionAsset),
    (text "fee", ofDouble o.fee),
    (text "commission_asset", ofText o.commissionAsset)]

/-- `Order::to_json`; nothing without an instrument, or if a name is read past the table. -/
def toItem (o : Order) : Option JsonItem := do
  let instrument ← o.instrument
  let instrument ← instrument.toItem
  let sourceType ← enumItem o.source.type
  let strategyId ← enumItem o.source.strategyId
  let status ← enumItem o.status
  let side ← enumItem o.side
  let type ← enumItem o.type
  pure (o.item instrument sourceType strategyId status side type)

/-- `Order::from_json`; nothing if the instrument is not found, or a conversion has no meaning. -/
def ofItem (doubles : DoubleText) (registry : InstrumentRegistry) (data : JsonItem) :
    Option Order := do
  let instrumentJson := data.field (text "instrument")
  let instrument ← registry.byExchangeSymbol
    (readEnum doubles (instrumentJson.field (text "exchange_id")))
    (readEnum doubles (instrumentJson.field (text "instrument_type")))
    (ofUtf8 ((instrumentJson.field (text "exchange_symbol")).toStdString doubles))
  let code ← ((data.field (text "error")).field (text "code")).toInteger (-2 ^ 31) (2 ^ 31 - 1)
  let lastUpdated ← Instrument.readSize (data.field (text "last_updated"))
  let orderId ← Instrument.readSize (data.field (text "order_id"))
  let price ← (data.field (text "price")).toDouble
  let quantity ← (data.field (text "quantity")).toDouble
  let filledQuantity ← (data.field (text "filled_quantity")).toDouble
  let fee ← (data.field (text "fee")).toDouble
  let outputQuantity ← (data.field (text "output_quantity")).toDouble
  let volumnInQuoteCurrency ← (data.field (text "volumn_in_quote_currency")).toDouble
  pure {
    orderId := orderId
    status := readEnum doubles (data.field (text "status"))
    instrument := some instrument
    side := readEnum doubles (data.field (text "side"))
    type := readEnum doubles (data.field (text "type"))
    price := price
    quantity := quantity
    lastUpdated := lastUpdated
    filledQuantity := filledQuantity
    filledPrice := 0
    fee := fee
    outputQuantity := outputQuantity
    volumnInQuoteCurrency := volumnInQuoteCurrency
    commissionAsset := ofUtf8 (data.field (text "commission_asset")).toShareString
    outputAsset := ofUtf8 (data.field (text "output_asset")).toShareString
    error := {
      code := code
      message := ofUtf8 ((data.field (text "error")).field (text "message")).toShareString }
    source := {
      type := readEnum doubles ((data.field (text "source")).field (text "type"))
      strategyId := readEnum doubles ((data.field (text "source")).field (text "strategy_id")) } }

/-- The numbers of an order are in the ranges of their types. -/
structure InRange (o : Order) : Prop where
  lastUpdated : o.lastUpdated < 2 ^ 64
  orderId : o.orderId < 2 ^ 64
  code : -2 ^ 31 ≤ o.error.code ∧ o.error.code < 2 ^ 31

variable {o : Order} {i : Instrument}

theorem toItem_eq (hinstrument : o.instrument = some i) (hid : o.source.strategyId ≠ .none) :
    o.toItem = i.toItem.map fun instrument => o.item instrument
      (ofText (Reflected.name o.source.type)) (ofText (Reflected.name o.source.strategyId))
      (ofText (Reflected.name o.status)) (ofText (Reflected.name o.side))
      (ofText (Reflected.name o.type)) := by
  rw [toItem, hinstrument, enumItem_eq o.source.type.inTable,
    enumItem_eq (o.source.strategyId.inTable_iff.mpr hid), enumItem_eq o.status.inTable,
    enumItem_eq o.side.inTable, enumItem_eq o.type.inTable, Option.map_eq_bind]
  rfl

/-- **What is read** of the `Json` of an order is what the typed document keeps of it. -/
theorem ofItem_toItem (doubles : DoubleText) (registry : InstrumentRegistry)
    (hinstrument : o.instrument = some i) (hmem : i ∈ registry.instruments)
    (hrange : o.InRange) (hid : o.source.strategyId ≠ .none) :
    o.toItem.bind (ofItem doubles registry) =
      some (fromJson registry.byExchangeSymbol o.toJson) := by
  have hcode : (-2 ^ 31 : ℤ) ≤ o.error.code ∧ o.error.code ≤ 2 ^ 31 - 1 :=
    ⟨hrange.code.1, Int.le_sub_one_of_lt hrange.code.2⟩
  obtain ⟨found, hfound⟩ : ∃ found, registry.byExchangeSymbol i.exchangeId i.instrumentType
      i.exchangeSymbol = some found := by
    refine Option.isSome_iff_exists.mp (List.find?_isSome.mpr ⟨i, hmem, ?_⟩)
    simp
  rw [toItem_eq hinstrument hid, Instrument.toItem_eq, Option.map_some, Option.bind_some, ofItem,
    item, OrderError.toItem]
  simp (disch := (rw [text_ofList, text_ofList]; decide)) only [field_cons_self, field_cons_of_ne]
  rw [readEnum_name i.exchangeId.inTable, readEnum_name i.instrumentType.inTable,
    readEnum_name o.source.type.inTable, readEnum_name (o.source.strategyId.inTable_iff.mpr hid),
    readEnum_name o.status.inTable, readEnum_name o.side.inTable, readEnum_name o.type.inTable,
    toInteger_ofInteger hcode.1 hcode.2 (by decide),
    Instrument.readSize_ofInteger hrange.lastUpdated, Instrument.readSize_ofInteger hrange.orderId]
  simp only [toStdString_ofText, toShareString_ofText, toDouble_ofDouble, ofUtf8_utf8, hfound]
  rw [fromJson, toJson]
  simp only [hinstrument, Option.bind_some, hfound]
  rfl

/-- Nothing is written of an order of the strategy `NONE`. -/
theorem toItem_of_none (hid : o.source.strategyId = .none) : o.toItem = none := by
  have hitem : enumItem o.source.strategyId = none :=
    enumItem_of_not_inTable fun hin => (o.source.strategyId.inTable_iff.mp hin) hid
  rw [toItem, hitem]
  cases o.instrument with
  | none => rfl
  | some i =>
    change (i.toItem.bind fun _ => (enumItem o.source.type).bind fun _ => none) = none
    rw [Instrument.toItem_eq, Option.bind_some, enumItem_eq o.source.type.inTable, Option.bind_some]

/-- The instrument is the first registered with its exchange symbol. -/
def FirstOfSymbol (registry : InstrumentRegistry) (i : Instrument) : Prop :=
  registry.byExchangeSymbol i.exchangeId i.instrumentType i.exchangeSymbol = some i

/-- **The condition.** -/
structure Restorable (registry : InstrumentRegistry) (o : Order) (i : Instrument) : Prop where
  filledPrice : o.filledPrice = 0
  outputAsset : o.outputAsset = o.commissionAsset
  strategyId : o.source.strategyId ≠ .none
  first : FirstOfSymbol registry i

/-- **The round trip of an order, exactly.**  An order of a registered instrument is read back from
its `Json` if and only if it has no filled price, its output asset is its commission asset, it is
not of the strategy `NONE`, and no other instrument was registered with its exchange symbol before.
-/
theorem ofItem_toItem_iff (doubles : DoubleText) (registry : InstrumentRegistry)
    (hinstrument : o.instrument = some i) (hmem : i ∈ registry.instruments) (hrange : o.InRange) :
    o.toItem.bind (ofItem doubles registry) = some o ↔ Restorable registry o i := by
  by_cases hid : o.source.strategyId = .none
  · rw [toItem_of_none hid]
    exact iff_of_false nofun fun h => h.strategyId hid
  rw [ofItem_toItem doubles registry hinstrument hmem hrange hid, Option.some.injEq]
  constructor
  · intro h
    refine ⟨(congrArg filledPrice h).symm, (congrArg outputAsset h).symm, hid, ?_⟩
    have hfound := congrArg instrument h
    rw [fromJson, toJson, hinstrument] at hfound
    exact hfound
  · intro h
    have hfound : o.instrument.bind (fun i => registry.byExchangeSymbol i.exchangeId
        i.instrumentType i.exchangeSymbol) = o.instrument := by
      rw [hinstrument]
      exact h.first
    exact (fromJson_toJson registry.byExchangeSymbol o hfound).trans
      (congrArg₂
        (fun price asset => ({ o with filledPrice := price, outputAsset := asset } : Order))
        h.filledPrice.symm h.outputAsset.symm)

/-! ## A new order and a filled one -/

/-- One instrument. -/
def shibInstrument : Instrument := .create .binance .spot "SHIB-USDT" "SHIBUSDT" 0 8

def shibRegistry : InstrumentRegistry where
  instruments := [shibInstrument]
  declared := by decide

def placedOrder : Order where
  orderId := 7
  status := .new
  instrument := some shibInstrument
  price := 100
  quantity := 2

theorem ofItem_toItem_placedOrder :
    placedOrder.toItem.bind (ofItem ⟨fun _ => [], fun _ => none⟩ shibRegistry) =
        some placedOrder ↔
      Restorable shibRegistry placedOrder shibInstrument :=
  ofItem_toItem_iff _ shibRegistry rfl List.mem_cons_self
    ⟨by decide, by decide, by decide⟩

/-- The order when it is filled, as the exchange reports it. -/
def filledOrder : Order :=
  { placedOrder with
    status := .filled
    filledQuantity := 2
    filledPrice := 100
    commissionAsset := "USDT" }

/-- **A filled order is not read back**: the price of its fill is gone, and the commission asset has
become its output asset. -/
theorem filledOrder_not_restored :
    filledOrder.toItem.bind (ofItem ⟨fun _ => [], fun _ => none⟩ shibRegistry) =
      some { filledOrder with filledPrice := 0, outputAsset := "USDT" } ∧
    filledOrder.toItem.bind (ofItem ⟨fun _ => [], fun _ => none⟩ shibRegistry) ≠
      some filledOrder := by
  have hread := ofItem_toItem ⟨fun _ => [], fun _ => none⟩ shibRegistry (o := filledOrder) rfl
    List.mem_cons_self ⟨by decide, by decide, by decide⟩ (by decide)
  have hkept : fromJson shibRegistry.byExchangeSymbol filledOrder.toJson =
      { filledOrder with filledPrice := 0, outputAsset := "USDT" } := by decide +kernel
  rw [hkept] at hread
  refine ⟨hread, ?_⟩
  rw [hread]
  decide +kernel

end Order

end TradingEngine
