import TradingEngine.Instrument.Rounding
import TradingEngine.Order.Order

/-!
# Binance/OrderQuery — the query strings of the quoters

`place` and `cancel` of the two quoters put an order into a query string.  A price and a quantity
are written with `std::to_string`, six decimals whatever the instrument has, so they arrive as they
are exactly if they are whole millionths (`sends_iff`).

What the exchange reads is the number behind the last mark: the exchange symbol in front may hold
anything.
-/

namespace TradingEngine

open Ascii

/-! ## The last mark of a text -/

section Last

variable {α : Type*} [DecidableEq α] {mark s t : List α}

/-- What stands behind the last occurrence of a mark. -/
def behindLast (mark : List α) : List α → Option (List α)
  | [] => none
  | c :: s =>
    match behindLast mark s with
    | some t => some t
    | none => if mark <+: c :: s then some ((c :: s).drop mark.length) else none

theorem behindLast_of_cut_eq_none (h : cut mark s = none) : behindLast mark s = none := by
  induction s with
  | nil => rfl
  | cons c s ih =>
    rw [cut] at h
    split_ifs at h with hmark
    rw [behindLast, ih (Option.map_eq_none_iff.mp h), if_neg hmark]

theorem behindLast_append (h : behindLast mark t = some s) (front : List α) :
    behindLast mark (front ++ t) = some s := by
  induction front with
  | nil => exact h
  | cons c front ih => rw [List.cons_append, behindLast, ih]

/-- **What is written behind a mark** that does not come again is found. -/
theorem behindLast_mark {d : α} (front : List α) (h : cut (d :: mark) (mark ++ t) = none) :
    behindLast (d :: mark) (front ++ (d :: mark ++ t)) = some t := by
  refine behindLast_append ?_ front
  rw [List.cons_append, behindLast, behindLast_of_cut_eq_none h, ← List.cons_append,
    if_pos (List.prefix_append _ _), List.drop_left]

/-- Another mark is passed over. -/
theorem cut_mark_eq_none {d a b : α} {mark' : List α} (hab : a ≠ b) (hd : d ∉ b :: mark')
    (h : cut (d :: a :: mark) t = none) : cut (d :: a :: mark) (d :: b :: mark' ++ t) = none := by
  have hpre : ¬ d :: a :: mark <+: d :: (b :: (mark' ++ t)) := fun hpre =>
    hab (List.cons_prefix_cons.mp (List.cons_prefix_cons.mp hpre).2).1
  rw [List.cons_append, List.cons_append, cut, if_neg hpre, Option.map_eq_none_iff,
    ← List.cons_append]
  exact cut_append_eq_none hd h

end Last

/-! ## The query strings -/

/-- The texts of an order's query, for the two quoters and a way to place limit orders. -/
def orderQuery (timeInForce : List UInt8) (tie : Tie) (i : Instrument) (order : Order) :
    List UInt8 :=
  text "symbol=" ++ (text i.exchangeSymbol ++ (text "&side=" ++ (text (Reflected.name order.side) ++
    (text "&type=" ++ (text (Reflected.name order.type) ++
      (text "&quantity=" ++ (InstrumentText.toString tie order.quantity ++
        (text "&newClientOrderId=" ++ (decimal order.orderId ++
          if order.type = .limit then
            text "&timeInForce=" ++ (timeInForce ++
              (text "&price=" ++ InstrumentText.toString tie order.price))
          else [])))))))))

namespace BinanceQuoterPerpetual

/-- The query of `place`; the instrument is the one the order points to. -/
def placeQuery (tie : Tie) (i : Instrument) (order : Order) : List UInt8 :=
  orderQuery (text "GTX") tie i order

/-- The query of `cancel`. -/
def cancelQuery (i : Instrument) (order : Order) : List UInt8 :=
  text "symbol=" ++ text i.exchangeSymbol ++ text "&origClientOrderId=" ++ decimal order.orderId

end BinanceQuoterPerpetual

namespace BinanceQuoterSpot

/-- The query of `place`. -/
def placeQuery (tie : Tie) (i : Instrument) (order : Order) : List UInt8 :=
  orderQuery (text "GTC") tie i order

end BinanceQuoterSpot

/-- The number behind a mark of a query. -/
def numberBehind (mark query : List UInt8) : Option ℚ :=
  (behindLast mark query).bind FixedPoint.read

/-! ## What is sent -/

variable {tie : Tie} {i : Instrument} {order : Order} {timeInForce : List UInt8} {x : ℚ}

/-- A whole number of millionths. -/
def WholeMillionths (x : ℚ) : Prop := ∃ n : ℤ, x * 10 ^ 6 = n

theorem ampersand_notMem_toString (tie : Tie) (x : ℚ) :
    (38 : UInt8) ∉ InstrumentText.toString tie x := by
  intro h
  rcases FixedPoint.mem_write h with h | h | h <;> exact absurd h (by decide)

theorem ampersand_notMem_decimal (n : ℕ) : (38 : UInt8) ∉ decimal n := fun h =>
  absurd (isDigit_of_mem_decimal h) (by decide)

/-- **A text stands for its number** exactly if that is a whole number of millionths. -/
theorem read_toString_iff (tie : Tie) (x : ℚ) {t : List UInt8}
    (ht : ∀ c ∈ t.head?, isDigit c = false) :
    FixedPoint.read (InstrumentText.toString tie x ++ t) = some x ↔ WholeMillionths x := by
  have hmillion : (10 : ℚ) ^ 6 ≠ 0 := by positivity
  rw [InstrumentText.toString, FixedPoint.read_write_append 6 _ _ ht, Option.some.injEq]
  constructor
  · intro h
    refine ⟨if x < 0 then -(tie.round (|x| * 10 ^ 6)).toNat else (tie.round (|x| * 10 ^ 6)).toNat,
      ?_⟩
    rw [eq_comm, ← div_eq_iff hmillion]
    refine Eq.trans ?_ h
    by_cases hneg : x < 0
    · simp only [FixedPoint.signed, hneg, decide_true, if_true, Int.cast_neg, Int.cast_natCast,
        neg_div]
    · simp only [FixedPoint.signed, hneg, decide_false, Bool.false_eq_true, if_false,
        Int.cast_natCast]
  · rintro ⟨m, hm⟩
    have habs : |x| * 10 ^ 6 = (m.natAbs : ℚ) := by
      rw [Nat.cast_natAbs, Int.cast_abs, ← hm, abs_mul,
        abs_of_pos (by positivity : (0 : ℚ) < 10 ^ 6)]
    have hround : ((tie.round (|x| * 10 ^ 6)).toNat : ℚ) / 10 ^ 6 = |x| := by
      rw [habs, InstrumentText.round_natCast, Int.toNat_natCast, ← habs, mul_div_cancel_right₀ _ hmillion]
    rw [hround, FixedPoint.signed]
    by_cases hneg : x < 0
    · rw [decide_eq_true hneg, if_pos rfl, abs_of_neg hneg, neg_neg]
    · rw [decide_eq_false hneg, if_neg Bool.false_ne_true, abs_of_nonneg (not_lt.mp hneg)]

/-- The part of a query that only a limit order has. -/
def limitPart (timeInForce : List UInt8) (tie : Tie) (order : Order) : List UInt8 :=
  if order.type = .limit then
    text "&timeInForce=" ++ (timeInForce ++
      (text "&price=" ++ InstrumentText.toString tie order.price))
  else []

/-- No other parameter is taken for the quantity. -/
theorem cut_quantity_limitPart (hforce : (38 : UInt8) ∉ timeInForce) (tie : Tie) (order : Order) :
    cut (text "&quantity=") (limitPart timeInForce tie order) = none := by
  rw [limitPart]
  split_ifs
  · refine cut_mark_eq_none (by decide) (by decide) (cut_append_eq_none hforce ?_)
    refine cut_mark_eq_none (by decide) (by decide) ?_
    have hnumber : cut (text "&quantity=")
        (InstrumentText.toString tie order.price ++ []) = none :=
      cut_append_eq_none (ampersand_notMem_toString tie order.price) rfl
    rwa [List.append_nil] at hnumber
  · rfl

/-- **The quantity** is found behind the last mark. -/
theorem numberBehind_quantity (hforce : (38 : UInt8) ∉ timeInForce) (tie : Tie) (i : Instrument)
    (order : Order) :
    numberBehind (text "&quantity=") (orderQuery timeInForce tie i order) = some order.quantity ↔
      WholeMillionths order.quantity := by
  set rest := InstrumentText.toString tie order.quantity ++
    (text "&newClientOrderId=" ++ (decimal order.orderId ++ limitPart timeInForce tie order))
    with hrest
  have hnone : cut (text "&quantity=") (text "quantity=" ++ rest) = none :=
    cut_append_eq_none (by decide) (cut_append_eq_none (ampersand_notMem_toString tie _)
      (cut_mark_eq_none (by decide) (by decide) (cut_append_eq_none
        (ampersand_notMem_decimal _) (cut_quantity_limitPart hforce tie order))))
  have hmark (front : List UInt8) :
      behindLast (text "&quantity=") (front ++ (text "&quantity=" ++ rest)) = some rest :=
    behindLast_mark front hnone
  have hbehind : behindLast (text "&quantity=") (orderQuery timeInForce tie i order) =
      some rest := by
    have hfront := hmark (text "symbol=" ++ (text i.exchangeSymbol ++ (text "&side=" ++
      (text (Reflected.name order.side) ++ (text "&type=" ++ text (Reflected.name order.type))))))
    rw [orderQuery, ← limitPart, ← hrest]
    simpa only [List.append_assoc] using hfront
  rw [numberBehind, hbehind, Option.bind_some]
  exact read_toString_iff tie order.quantity (by rintro _ ⟨⟩; rfl)

/-- **The price** is found behind the last mark. -/
theorem numberBehind_price (timeInForce : List UInt8) (tie : Tie) (i : Instrument)
    (hlimit : order.type = .limit) :
    numberBehind (text "&price=") (orderQuery timeInForce tie i order) = some order.price ↔
      WholeMillionths order.price := by
  have hnone : cut (text "&price=") (text "price=" ++ InstrumentText.toString tie order.price) =
      none := by
    have hnumber : cut (text "&price=") (InstrumentText.toString tie order.price ++ []) = none :=
      cut_append_eq_none (ampersand_notMem_toString tie order.price) rfl
    rw [List.append_nil] at hnumber
    exact cut_append_eq_none (by decide) hnumber
  have hmark (front : List UInt8) : behindLast (text "&price=")
      (front ++ (text "&price=" ++ InstrumentText.toString tie order.price)) =
        some (InstrumentText.toString tie order.price) :=
    behindLast_mark front hnone
  have hbehind : behindLast (text "&price=") (orderQuery timeInForce tie i order) =
      some (InstrumentText.toString tie order.price) := by
    have hfront := hmark (text "symbol=" ++ (text i.exchangeSymbol ++ (text "&side=" ++
      (text (Reflected.name order.side) ++ (text "&type=" ++ (text (Reflected.name order.type) ++
        (text "&quantity=" ++ (InstrumentText.toString tie order.quantity ++
          (text "&newClientOrderId=" ++ (decimal order.orderId ++
            (text "&timeInForce=" ++ timeInForce)))))))))))
    rw [orderQuery, if_pos hlimit]
    simpa only [List.append_assoc] using hfront
  have hread := read_toString_iff tie order.price (t := []) nofun
  rw [List.append_nil] at hread
  rw [numberBehind, hbehind, Option.bind_some, hread]

/-- The quantity and, of a limit order, the price are sent as they are. -/
def Sends (query : List UInt8) (order : Order) : Prop :=
  numberBehind (text "&quantity=") query = some order.quantity ∧
    (order.type = .limit → numberBehind (text "&price=") query = some order.price)

/-- What the order wants is a whole number of millionths. -/
def InMillionths (order : Order) : Prop :=
  WholeMillionths order.quantity ∧ (order.type = .limit → WholeMillionths order.price)

theorem sends_orderQuery_iff (hforce : (38 : UInt8) ∉ timeInForce) (tie : Tie) (i : Instrument)
    (order : Order) : Sends (orderQuery timeInForce tie i order) order ↔ InMillionths order :=
  and_congr (numberBehind_quantity hforce tie i order)
    (forall_congr' fun hlimit => numberBehind_price timeInForce tie i hlimit)

/-- A multiple of `10 ^ -k`. -/
def MultipleOf (k : ℕ) (x : ℚ) : Prop := ∃ m : ℤ, x = m / 10 ^ k

/-- Up to six decimals the steps of an instrument are whole millionths. -/
theorem wholeMillionths_of_multipleOf {k : ℕ} (hk : k ≤ 6) (h : MultipleOf k x) :
    WholeMillionths x := by
  obtain ⟨m, rfl⟩ := h
  have hpow : (10 : ℚ) ^ 6 = 10 ^ k * 10 ^ (6 - k) := by rw [← pow_add, Nat.add_sub_cancel' hk]
  refine ⟨m * 10 ^ (6 - k), ?_⟩
  rw [hpow]
  push_cast
  field_simp

/-- **An order on the steps of its instrument** is sent with its own price and quantity exactly if
these are whole numbers of millionths; they are if the instrument has six decimals at most. -/
theorem sends_iff (tie : Tie) (i : Instrument) (order : Order)
    (hprice : MultipleOf i.tickSize order.price) (hquantity : MultipleOf i.lotSize order.quantity) :
    (Sends (BinanceQuoterPerpetual.placeQuery tie i order) order ↔ InMillionths order) ∧
    (Sends (BinanceQuoterSpot.placeQuery tie i order) order ↔ InMillionths order) ∧
    (i.tickSize ≤ 6 → i.lotSize ≤ 6 → InMillionths order) :=
  ⟨sends_orderQuery_iff (by decide) tie i order, sends_orderQuery_iff (by decide) tie i order,
    fun htick hlot => ⟨wholeMillionths_of_multipleOf hlot hquantity,
      fun _ => wholeMillionths_of_multipleOf htick hprice⟩⟩

/-- Eight decimals of a price, none of a quantity. -/
def shib : Instrument := .create .binance .spot "SHIB-USDT" "SHIBUSDT" 0 8

/-- A limit order for 1000000 at 0.00001234. -/
def shibOrder : Order :=
  { orderId := 7, instrument := some shib, price := 1234 / 10 ^ 8, quantity := 1000000 }

theorem sends_shib :
    (Sends (BinanceQuoterPerpetual.placeQuery .even shib shibOrder) shibOrder ↔
      InMillionths shibOrder) ∧
    (Sends (BinanceQuoterSpot.placeQuery .even shib shibOrder) shibOrder ↔
      InMillionths shibOrder) ∧
    (shib.tickSize ≤ 6 → shib.lotSize ≤ 6 → InMillionths shibOrder) :=
  sends_iff .even shib shibOrder ⟨1234, rfl⟩
    ⟨1000000, by norm_num [shib, shibOrder, Instrument.create]⟩

/-- **The price of a small-tick symbol is another one**: 0.00001234 is sent as 0.000012. -/
theorem shib_not_sent :
    MultipleOf shib.tickSize shibOrder.price ∧ MultipleOf shib.lotSize shibOrder.quantity ∧
    numberBehind (text "&price=") (BinanceQuoterPerpetual.placeQuery .even shib shibOrder) =
      some (12 / 10 ^ 6) ∧
    numberBehind (text "&price=") (BinanceQuoterSpot.placeQuery .even shib shibOrder) =
      some (12 / 10 ^ 6) ∧
    ¬ Sends (BinanceQuoterPerpetual.placeQuery .even shib shibOrder) shibOrder ∧
    ¬ Sends (BinanceQuoterSpot.placeQuery .even shib shibOrder) shibOrder := by
  have hperpetual : numberBehind (text "&price=")
      (BinanceQuoterPerpetual.placeQuery .even shib shibOrder) = some (12 / 10 ^ 6) := by
    decide +kernel
  have hspot : numberBehind (text "&price=")
      (BinanceQuoterSpot.placeQuery .even shib shibOrder) = some (12 / 10 ^ 6) := by
    decide +kernel
  have hother : (some (12 / 10 ^ 6) : Option ℚ) ≠ some (1234 / 10 ^ 8) := by decide +kernel
  refine ⟨⟨1234, rfl⟩, ⟨1000000, by norm_num [shib, shibOrder, Instrument.create]⟩, hperpetual,
    hspot, fun h => ?_, fun h => ?_⟩
  · exact hother (hperpetual.symm.trans (h.2 rfl))
  · exact hother (hspot.symm.trans (h.2 rfl))

end TradingEngine
