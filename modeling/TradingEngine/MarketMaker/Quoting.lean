import TradingEngine.Instrument.Rounding
import TradingEngine.Order.Order
import TradingEngine.VolumeStat.TradeLog

/-!
# MarketMaker/Quoting — the quotes of the market maker

`quote_orders_at_price` looks for buckets of a `VolumeStat` with enough volume below and above a
price and places a buy and a sell order at each pair of them.  The two ranges and quantities are
skewed by how much the total volumes differ.

* `quotesSound_iff` — the quotes are what they shall be, for an instrument whose precisions do not
  wrap, exactly if no sell goes into a bucket without a trade and the smaller quantity reaches the
  lot size.
* `price_ne_zero_of_pos` — the first of the two holds with a positive minimum volume.
-/

namespace TradingEngine

open InstrumentText

/-- The values of `p` in `for (p = first; p >= last; p -= 1.0)`. -/
def countDown (first last : ℚ) : List ℚ :=
  (List.range (⌊first - last⌋ + 1).toNat).map fun i : ℕ => first - i

/-- The values of `p` in `for (p = first; p <= last; p += 1.0)`. -/
def countUp (first last : ℚ) : List ℚ := (countDown (-first) (-last)).map (- ·)

/-- What the turns of a loop give, up to the first that throws, and whether none does. -/
def collect {α β : Type*} (turn : ℕ → α → Option (List β)) : ℕ → List α → List β × Bool
  | _, [] => ([], true)
  | i, a :: as =>
    match turn i a with
    | none => ([], false)
    | some bs => (bs ++ (collect turn (i + 1) as).1, (collect turn (i + 1) as).2)

/-- `StrategyMarketMakerStateRun`, the members that its quotes depend on. -/
structure MarketMakerQuotes where
  instrument : Instrument
  volumeStat : VolumeStat
  priceGap : ℚ := 10
  volume : ℚ := 0
  minTradeVolume : ℚ := 0
  totalBuyVolume : ℚ := 0
  totalSellVolume : ℚ := 0
  numberOfOrderPairPerQuote : ℚ := 1
  lastQuotedPrice : ℚ := 0

/-- The prices that are looked at, and the quantities in front of the rounding. -/
structure QuoteRange where
  buyBegin : ℚ
  buyEnd : ℚ
  sellBegin : ℚ
  sellEnd : ℚ
  buyQuantity : ℚ
  sellQuantity : ℚ
  deriving DecidableEq, Repr

namespace MarketMakerQuotes

variable (q : MarketMakerQuotes)

/-- The end of `update_15_mins_volume_stat`, for the dollars traded. -/
def updateNumberOfOrderPair (totalVolumeInUsd : ℚ) : MarketMakerQuotes :=
  if totalVolumeInUsd = 0 then q
  else
    { q with
      numberOfOrderPairPerQuote :=
        if totalVolumeInUsd / 1000000 < 15 then 4
        else if totalVolumeInUsd / 1000000 < 25 then 3
        else if totalVolumeInUsd / 1000000 < 35 then 2
        else 1 }

def newPriceGap : ℚ :=
  if q.numberOfOrderPairPerQuote = 2 then q.priceGap * 2
  else if q.numberOfOrderPairPerQuote = 3 then q.priceGap * 3
  else if q.numberOfOrderPairPerQuote = 4 then q.priceGap * 4
  else q.priceGap

def skewRatio : ℚ :=
  |q.totalBuyVolume - q.totalSellVolume| / max q.totalBuyVolume q.totalSellVolume

def quoteRange (price : ℚ) : QuoteRange :=
  let gap := q.newPriceGap
  let skew := q.skewRatio
  let buyBegin := price - 2
  let buyEnd := price - gap
  let sellBegin := price + 2
  let sellEnd := price + gap
  if q.totalBuyVolume > q.totalSellVolume then
    { buyBegin := buyBegin - gap * skew
      buyEnd := buyEnd - gap * skew
      sellBegin := sellBegin
      sellEnd := sellEnd - (sellEnd - sellBegin) * skew
      buyQuantity := q.volume * (1 - skew)
      sellQuantity := q.volume * (1 + skew) }
  else
    { buyBegin := buyBegin
      buyEnd := buyEnd + (buyBegin - buyEnd) * skew
      sellBegin := sellBegin + gap * skew
      sellEnd := sellEnd + gap * skew
      buyQuantity := q.volume * (1 + skew)
      sellQuantity := q.volume * (1 - skew) }

def buyVolumes (price : ℚ) : List TradeVolumeAtPrice :=
  (countDown (q.quoteRange price).buyBegin (q.quoteRange price).buyEnd).filterMap fun p =>
    (q.volumeStat.getTradeVolumeAtPrice p).filter fun b => q.minTradeVolume ≤ b.totalBuyVolume

def sellVolumes (price : ℚ) : List TradeVolumeAtPrice :=
  (countUp (q.quoteRange price).sellBegin (q.quoteRange price).sellEnd).filterMap fun p =>
    (q.volumeStat.getTradeVolumeAtPrice p).filter fun b => q.minTradeVolume ≤ b.totalSellVolume

def numberOfOrderPair (price : ℚ) : ℚ :=
  min q.numberOfOrderPairPerQuote
    (min (q.buyVolumes price).length (q.sellVolumes price).length : ℕ)

/-- The buckets that orders are placed at: `i` is a size, compared with a double. -/
def pairs (price : ℚ) : List (TradeVolumeAtPrice × TradeVolumeAtPrice) :=
  ((q.buyVolumes price).zip (q.sellVolumes price)).take ⌈q.numberOfOrderPair price⌉₊

/-- `get_limit_order`, `none` if a text is no number. -/
def getLimitOrder (tie : Tie) (orderId : OrderId) (side : OrderSide) (price quantity : ℚ) :
    Option Order := do
  let price ← getRoundUpPrice tie q.instrument price
  let quantity ← getRoundUpQuantity tie q.instrument quantity
  some
    { orderId := orderId
      status := .notAvailable
      instrument := some q.instrument
      side := side
      type := .limit
      price := price
      quantity := quantity }

/-- One turn of the loop: both orders are made before one is placed. -/
def quotePair (tie : Tie) (generateOrderId : ℕ → OrderId) (range : QuoteRange) (i : ℕ)
    (p : TradeVolumeAtPrice × TradeVolumeAtPrice) : Option (List Order) := do
  let buyOrder ← q.getLimitOrder tie (generateOrderId (2 * i)) .buy p.1.price range.buyQuantity
  let sellOrder ←
    q.getLimitOrder tie (generateOrderId (2 * i + 1)) .sell p.2.price range.sellQuantity
  some [buyOrder, sellOrder]

/-- The loop: the orders that are placed, and whether it comes to its end. -/
def quotePairs (tie : Tie) (generateOrderId : ℕ → OrderId) (range : QuoteRange) :
    ℕ → List (TradeVolumeAtPrice × TradeVolumeAtPrice) → List Order × Bool :=
  collect (q.quotePair tie generateOrderId range)

/-- `quote_orders_at_price`: the members after it, and the orders that it places. -/
def quoteOrdersAtPrice (tie : Tie) (generateOrderId : ℕ → OrderId) (price : ℚ) :
    MarketMakerQuotes × List Order :=
  if q.buyVolumes price = [] ∨ q.sellVolumes price = [] then (q, [])
  else
    match q.quotePairs tie generateOrderId (q.quoteRange price) 0 (q.pairs price) with
    | (orders, true) => ({ q with lastQuotedPrice := price }, orders)
    | (orders, false) => (q, orders)

/-- **What quotes shall be**: buys below the price and sells above it, none empty, as many of the
one as of the other and not more than the pairs asked for, with a fixed quantity in each pair. -/
structure Sound (price : ℚ) (orders : List Order) : Prop where
  buy_lt : ∀ o ∈ orders, o.side = .buy → o.price < price
  lt_sell : ∀ o ∈ orders, o.side = .sell → price < o.price
  quantity_pos : ∀ o ∈ orders, 0 < o.quantity
  count_eq : orders.countP (·.side = .buy) = orders.countP (·.side = .sell)
  count_le : (orders.countP (·.side = .buy) : ℚ) ≤ q.numberOfOrderPairPerQuote
  sum_eq : (q.quoteRange price).buyQuantity + (q.quoteRange price).sellQuantity = 2 * q.volume

/-- Both orders of a pair can be made. -/
def readable (tie : Tie) (range : QuoteRange)
    (p : TradeVolumeAtPrice × TradeVolumeAtPrice) : Bool :=
  (getRoundUpPrice tie q.instrument p.1.price).isSome &&
    (getRoundUpQuantity tie q.instrument range.buyQuantity).isSome &&
    (getRoundUpPrice tie q.instrument p.2.price).isSome &&
    (getRoundUpQuantity tie q.instrument range.sellQuantity).isSome

/-- After the rounding, the sell does not cross the price and neither order is empty. -/
def Fits (tie : Tie) (price : ℚ) (p : TradeVolumeAtPrice × TradeVolumeAtPrice) : Prop :=
  (∀ x ∈ getRoundUpPrice tie q.instrument p.2.price, price < x) ∧
    (∀ x ∈ getRoundUpQuantity tie q.instrument (q.quoteRange price).buyQuantity, 0 < x) ∧
    ∀ x ∈ getRoundUpQuantity tie q.instrument (q.quoteRange price).sellQuantity, 0 < x

end MarketMakerQuotes

/-! ## The loops -/

theorem mem_countDown {first last p : ℚ} (h : p ∈ countDown first last) :
    last ≤ p ∧ p ≤ first := by
  obtain ⟨i, hi, rfl⟩ := List.mem_map.mp h
  have hfloor : (i : ℤ) ≤ ⌊first - last⌋ := by
    have := List.mem_range.mp hi
    omega
  have hle : ((i : ℤ) : ℚ) ≤ first - last := Int.le_floor.mp hfloor
  rw [Int.cast_natCast] at hle
  have := Nat.cast_nonneg (α := ℚ) i
  exact ⟨by linarith, by linarith⟩

theorem mem_countUp {first last p : ℚ} (h : p ∈ countUp first last) : first ≤ p ∧ p ≤ last := by
  obtain ⟨p', hp', rfl⟩ := List.mem_map.mp h
  obtain ⟨hlast, hfirst⟩ := mem_countDown hp'
  exact ⟨by linarith, by linarith⟩

/-- **The loop**: its condition, its body and its step. -/
theorem countDown_eq (first last : ℚ) :
    countDown first last = if first ≥ last then first :: countDown (first - 1) last else [] := by
  split_ifs with hle
  · have hfloor : ⌊first - 1 - last⌋ = ⌊first - last⌋ - 1 := by
      rw [← Int.floor_sub_one]
      congr 1
      ring
    have hnonneg : 0 ≤ ⌊first - last⌋ := Int.floor_nonneg.mpr (sub_nonneg.mpr hle)
    have hcount : (⌊first - last⌋ + 1).toNat = (⌊first - 1 - last⌋ + 1).toNat + 1 := by omega
    rw [countDown, hcount, List.range_succ_eq_map, List.map_cons, List.map_map, countDown,
      Nat.cast_zero, sub_zero]
    congr 1
    refine List.map_congr_left fun i _ => ?_
    rw [Function.comp_apply, Nat.succ_eq_add_one, Nat.cast_add, Nat.cast_one]
    ring
  · have hneg : ⌊first - last⌋ < 0 := Int.floor_lt.mpr (by push_cast; linarith)
    rw [countDown, show (⌊first - last⌋ + 1).toNat = 0 by omega]
    rfl

/-! ## The buckets of a `VolumeStat` -/

theorem TradeVolumeAtPrice.popOldTrades_price (now duration : UInt64) (ts : List TradeUpdate)
    (b : TradeVolumeAtPrice) : (popOldTrades now duration ts b).price = b.price := by
  induction ts generalizing b with
  | nil => rfl
  | cons t ts ih =>
    rw [popOldTrades]
    split
    · exact ih _
    · rfl

namespace VolumeStat

/-- **A bucket without a price is a new one**, and the others have their index for a price. -/
structure Indexed (v : VolumeStat) : Prop where
  length_le : v.tradeVolumes.length ≤ maxBuckets
  max_lt : v.maxPriceIndex < v.tradeVolumes.length ∨ v.maxPriceIndex = 0 ∧ 0 < v.minPriceIndex
  bucket : ∀ k, v.bucketAt k = .construct ∨ (v.bucketAt k).price = k

variable {v : VolumeStat}

theorem Indexed.start : Indexed .construct where
  length_le := Nat.zero_le _
  max_lt := .inr ⟨rfl, by decide⟩
  bucket _ := .inl rfl

theorem Indexed.addTradeVolume (h : v.Indexed) (t : TradeUpdate) :
    ((v.addTradeVolume t).toOption.getD v).Indexed := by
  have hle := h.length_le
  by_cases hindex : t.index < maxBuckets
  · obtain ⟨v', hadd, hmax, hmin, hlength, hbucket⟩ := v.addTradeVolume_spec hindex
    rw [hadd]
    refine ⟨?_, ?_, fun k => ?_⟩
    · change v'.tradeVolumes.length ≤ maxBuckets
      omega
    · refine .inl ?_
      change v'.maxPriceIndex < v'.tradeVolumes.length
      have := h.max_lt
      omega
    · change v'.bucketAt k = .construct ∨ (v'.bucketAt k).price = k
      rw [hbucket]
      split_ifs with hk
      · exact .inr (by rw [hk]; rfl)
      · exact h.bucket k
  · rw [addTradeVolume_error hindex hle]
    exact h

theorem Indexed.removeOldVolumes (h : v.Indexed) (now d : UInt64) :
    ((v.removeOldVolumes now d).getD v).Indexed := by
  have hmax_lt := h.max_lt
  obtain ⟨v', hremove, hmax, hmin, hlength, hbucket⟩ :=
    v.removeOldVolumes_spec now d (by omega)
  rw [hremove]
  refine ⟨hlength.trans_le h.length_le, ?_, fun k => ?_⟩
  · change v'.maxPriceIndex < v'.tradeVolumes.length ∨ v'.maxPriceIndex = 0 ∧ 0 < v'.minPriceIndex
    rw [hmax, hmin, hlength]
    exact hmax_lt
  · change v'.bucketAt k = .construct ∨ (v'.bucketAt k).price = k
    rw [hbucket]
    split_ifs
    · refine (h.bucket k).imp (fun hnew => ?_) fun hprice => ?_
      · rw [hnew]
        rfl
      · exact (TradeVolumeAtPrice.popOldTrades_price ..).trans hprice
    · exact h.bucket k

/-- **Every `VolumeStat` that trades and removals lead to** is indexed. -/
theorem indexed_exec (calls : List VolumeCall) :
    (Run.exec VolumeRun.step .start calls).stat.Indexed := by
  suffices hstep : ∀ (s : VolumeRun) (call : VolumeCall),
      s.stat.Indexed → (s.step call).stat.Indexed from
    Run.exec_of_forall (I := fun s : VolumeRun => s.stat.Indexed) hstep Indexed.start calls
  intro s call h
  cases call with
  | addTradeVolume t => exact h.addTradeVolume t
  | removeOldVolumes now d => exact h.removeOldVolumes now d
  | getData => exact h
  | getTradeVolumeAtPrice p => exact h

/-- **A bucket that is found** lies above the lowest one. -/
theorem Indexed.of_getTradeVolumeAtPrice (h : v.Indexed) {p : ℚ} {b : TradeVolumeAtPrice}
    (hb : b ∈ v.getTradeVolumeAtPrice p) :
    b = v.bucketAt (priceIndex p) ∧ 0 < priceIndex p ∧ priceIndex p < maxBuckets := by
  rw [getTradeVolumeAtPrice] at hb
  split_ifs at hb with hout
  · cases hb
  · have hlt : priceIndex p < v.tradeVolumes.length := by
      have := h.max_lt
      omega
    rw [getElem?_of_lt hlt] at hb
    have := h.length_le
    exact ⟨(Option.some.inj hb).symm, by omega, by omega⟩

end VolumeStat

namespace MarketMakerQuotes

variable {q : MarketMakerQuotes} {tie : Tie} {price : ℚ}

/-- What the code promises: the volumes are a `VolumeStat`'s, no total is negative and not both are
zero, the volume of an order is a positive double and the pairs of a quote are counted. -/
structure WellFormed (q : MarketMakerQuotes) : Prop where
  reachable : ∃ calls, q.volumeStat = (Run.exec VolumeRun.step .start calls).stat
  totalBuyVolume_nonneg : 0 ≤ q.totalBuyVolume
  totalSellVolume_nonneg : 0 ≤ q.totalSellVolume
  total_pos : 0 < max q.totalBuyVolume q.totalSellVolume
  volume_pos : 0 < q.volume
  volume_lt : q.volume < 2 ^ 1024
  pairs_whole : ∃ n : ℕ, q.numberOfOrderPairPerQuote = n

/-- The number of pairs stays whole. -/
theorem WellFormed.updateNumberOfOrderPair (h : q.WellFormed) (totalVolumeInUsd : ℚ) :
    (q.updateNumberOfOrderPair totalVolumeInUsd).WellFormed := by
  rw [MarketMakerQuotes.updateNumberOfOrderPair]
  split_ifs
  · exact h
  · exact { h with pairs_whole := ⟨4, rfl⟩ }
  · exact { h with pairs_whole := ⟨3, rfl⟩ }
  · exact { h with pairs_whole := ⟨2, rfl⟩ }
  · exact { h with pairs_whole := ⟨1, by simp⟩ }

theorem WellFormed.indexed (h : q.WellFormed) : q.volumeStat.Indexed := by
  obtain ⟨calls, hcalls⟩ := h.reachable
  exact hcalls ▸ VolumeStat.indexed_exec calls

/-! ## The ranges -/

/-- The skew lies between 0 and 1. -/
theorem WellFormed.skewRatio_mem (h : q.WellFormed) : 0 ≤ q.skewRatio ∧ q.skewRatio ≤ 1 := by
  refine ⟨div_nonneg (abs_nonneg _) h.total_pos.le, ?_⟩
  rw [skewRatio, div_le_one h.total_pos, abs_le]
  have hbuy := le_max_left q.totalBuyVolume q.totalSellVolume
  have hsell := le_max_right q.totalBuyVolume q.totalSellVolume
  have := h.totalBuyVolume_nonneg
  have := h.totalSellVolume_nonneg
  exact ⟨by linarith, by linarith⟩

theorem sum_quantity (q : MarketMakerQuotes) (price : ℚ) :
    (q.quoteRange price).buyQuantity + (q.quoteRange price).sellQuantity = 2 * q.volume := by
  rw [quoteRange]
  split_ifs
  · ring
  · ring

/-- **Every price that is looked at for a buy** is 2 below; no gap below 2 leaves a range. -/
theorem WellFormed.le_of_mem_countDown (h : q.WellFormed) {p : ℚ}
    (hp : p ∈ countDown (q.quoteRange price).buyBegin (q.quoteRange price).buyEnd) :
    p ≤ price - 2 := by
  obtain ⟨hend, hbegin⟩ := mem_countDown hp
  rw [quoteRange] at hend hbegin
  split_ifs at hend hbegin with hskew
  · have hgap : 0 ≤ q.newPriceGap := by linarith
    have := mul_nonneg hgap h.skewRatio_mem.1
    linarith
  · exact hbegin

/-- **Every price that is looked at for a sell** is 2 above. -/
theorem WellFormed.le_of_mem_countUp (h : q.WellFormed) {p : ℚ}
    (hp : p ∈ countUp (q.quoteRange price).sellBegin (q.quoteRange price).sellEnd) :
    price + 2 ≤ p := by
  obtain ⟨hbegin, hend⟩ := mem_countUp hp
  rw [quoteRange] at hend hbegin
  split_ifs at hend hbegin with hskew
  · exact hbegin
  · have hgap : 0 ≤ q.newPriceGap := by linarith
    have := mul_nonneg hgap h.skewRatio_mem.1
    linarith

/-! ## The buckets -/

/-- **A bucket for a buy** lies below the price. -/
theorem WellFormed.of_mem_buyVolumes (h : q.WellFormed) {b : TradeVolumeAtPrice}
    (hb : b ∈ q.buyVolumes price) :
    ∃ k, b = q.volumeStat.bucketAt k ∧ k < maxBuckets ∧ (k : ℚ) < price := by
  obtain ⟨p, hp, hfound⟩ := List.mem_filterMap.mp hb
  obtain ⟨hfound, -⟩ := Option.filter_eq_some_iff.mp hfound
  obtain ⟨rfl, hpos, hlt⟩ := h.indexed.of_getTradeVolumeAtPrice hfound
  refine ⟨priceIndex p, rfl, hlt, ?_⟩
  have hfloor : ((priceIndex p : ℕ) : ℤ) = ⌊p⌋ := by
    rw [priceIndex] at hpos ⊢
    omega
  have hle : ((priceIndex p : ℤ) : ℚ) ≤ p := hfloor ▸ Int.floor_le p
  rw [Int.cast_natCast] at hle
  have := h.le_of_mem_countDown hp
  linarith

/-- **A bucket for a sell** lies above the price. -/
theorem WellFormed.of_mem_sellVolumes (h : q.WellFormed) {b : TradeVolumeAtPrice}
    (hb : b ∈ q.sellVolumes price) :
    ∃ k, b = q.volumeStat.bucketAt k ∧ k < maxBuckets ∧ price < (k : ℚ) ∧
      q.minTradeVolume ≤ b.totalSellVolume := by
  obtain ⟨p, hp, hfound⟩ := List.mem_filterMap.mp hb
  obtain ⟨hfound, hvolume⟩ := Option.filter_eq_some_iff.mp hfound
  obtain ⟨rfl, hpos, hlt⟩ := h.indexed.of_getTradeVolumeAtPrice hfound
  refine ⟨priceIndex p, rfl, hlt, ?_, of_decide_eq_true hvolume⟩
  have hfloor : ((priceIndex p : ℕ) : ℤ) = ⌊p⌋ := by
    rw [priceIndex] at hpos ⊢
    omega
  have hgt : p < ((priceIndex p : ℤ) : ℚ) + 1 := hfloor ▸ Int.lt_floor_add_one p
  rw [Int.cast_natCast] at hgt
  have := h.le_of_mem_countUp hp
  linarith

theorem mem_of_mem_pairs {p : TradeVolumeAtPrice × TradeVolumeAtPrice} (hp : p ∈ q.pairs price) :
    p.1 ∈ q.buyVolumes price ∧ p.2 ∈ q.sellVolumes price :=
  List.of_mem_zip (List.mem_of_mem_take hp)

/-- A buy goes to a whole price below. -/
theorem WellFormed.buy_price (h : q.WellFormed) (hprice : 0 < price)
    {p : TradeVolumeAtPrice × TradeVolumeAtPrice} (hp : p ∈ q.pairs price) :
    ∃ k : ℕ, p.1.price = k ∧ k < maxBuckets ∧ (k : ℚ) < price := by
  obtain ⟨k, hk, hlt, hbelow⟩ := h.of_mem_buyVolumes (mem_of_mem_pairs hp).1
  rw [hk]
  rcases h.indexed.bucket k with hnew | hindex
  · exact ⟨0, by rw [hnew]; rfl, by decide, by exact_mod_cast hprice⟩
  · exact ⟨k, hindex, hlt, hbelow⟩

/-- A sell goes to a whole price above, or to the price 0 of a bucket without a trade. -/
theorem WellFormed.sell_price (h : q.WellFormed) {p : TradeVolumeAtPrice × TradeVolumeAtPrice}
    (hp : p ∈ q.pairs price) :
    ∃ k : ℕ, p.2.price = k ∧ k < maxBuckets ∧ (p.2.price ≠ 0 → price < k) := by
  obtain ⟨k, hk, hlt, habove, -⟩ := h.of_mem_sellVolumes (mem_of_mem_pairs hp).2
  rw [hk]
  rcases h.indexed.bucket k with hnew | hindex
  · exact ⟨0, by rw [hnew]; rfl, by decide, fun hne => absurd (by rw [hnew]; rfl) hne⟩
  · exact ⟨k, hindex, hlt, fun _ => habove⟩

/-- **With a positive minimum volume** no sell goes into a bucket without a trade. -/
theorem WellFormed.price_ne_zero_of_pos (h : q.WellFormed) (hprice : 0 < price)
    (hmin : 0 < q.minTradeVolume) {p : TradeVolumeAtPrice × TradeVolumeAtPrice}
    (hp : p ∈ q.pairs price) : p.2.price ≠ 0 := by
  obtain ⟨k, hk, -, habove, hvolume⟩ := h.of_mem_sellVolumes (mem_of_mem_pairs hp).2
  rcases h.indexed.bucket k with hnew | hindex
  · rw [hk, hnew] at hvolume
    exact absurd hvolume (not_le.mpr hmin)
  · rw [hk, hindex]
    exact (hprice.trans habove).ne'

theorem WellFormed.length_pairs_le (h : q.WellFormed) (price : ℚ) :
    ((q.pairs price).length : ℚ) ≤ q.numberOfOrderPairPerQuote := by
  obtain ⟨n, hn⟩ := h.pairs_whole
  have hceil : ⌈q.numberOfOrderPair price⌉₊ ≤ n := by
    rw [Nat.ceil_le, numberOfOrderPair, hn]
    exact min_le_left _ _
  rw [hn, Nat.cast_le]
  exact (List.length_take_le _ _).trans hceil

/-! ## The orders -/

/-- **One turn of the loop**: it places both orders, each with the rounded price of its bucket and
the rounded quantity of its side, or neither. -/
theorem quotePair_cases (q : MarketMakerQuotes) (tie : Tie) (ids : ℕ → OrderId)
    (range : QuoteRange) (i : ℕ) (p : TradeVolumeAtPrice × TradeVolumeAtPrice) :
    q.readable tie range p = false ∧ q.quotePair tie ids range i p = none ∨
    q.readable tie range p = true ∧ ∃ buy sell : Order,
      q.quotePair tie ids range i p = some [buy, sell] ∧ buy.side = .buy ∧ sell.side = .sell ∧
      getRoundUpPrice tie q.instrument p.1.price = some buy.price ∧
      getRoundUpQuantity tie q.instrument range.buyQuantity = some buy.quantity ∧
      getRoundUpPrice tie q.instrument p.2.price = some sell.price ∧
      getRoundUpQuantity tie q.instrument range.sellQuantity = some sell.quantity := by
  rw [readable, quotePair, getLimitOrder, getLimitOrder]
  cases getRoundUpPrice tie q.instrument p.1.price with
  | none => exact .inl ⟨rfl, rfl⟩
  | some buyPrice =>
    cases getRoundUpQuantity tie q.instrument range.buyQuantity with
    | none => exact .inl ⟨rfl, rfl⟩
    | some buyQuantity =>
      cases getRoundUpPrice tie q.instrument p.2.price with
      | none => exact .inl ⟨rfl, rfl⟩
      | some sellPrice =>
        cases getRoundUpQuantity tie q.instrument range.sellQuantity with
        | none => exact .inl ⟨rfl, rfl⟩
        | some sellQuantity => exact .inr ⟨rfl, _, _, rfl, rfl, rfl, rfl, rfl, rfl, rfl⟩

/-- **The loop places a buy and a sell for each pair** up to the first that cannot be made. -/
theorem quotePairs_spec (q : MarketMakerQuotes) (tie : Tie) (ids : ℕ → OrderId) (price : ℚ) (i : ℕ)
    (ps : List (TradeVolumeAtPrice × TradeVolumeAtPrice)) {orders : List Order}
    (horders : (q.quotePairs tie ids (q.quoteRange price) i ps).1 = orders)
    {placed : List (TradeVolumeAtPrice × TradeVolumeAtPrice)}
    (hplaced : ps.takeWhile (q.readable tie (q.quoteRange price)) = placed) :
    orders.countP (·.side = .buy) = placed.length ∧
      orders.countP (·.side = .sell) = placed.length ∧
      (∀ o ∈ orders, o.side = .buy → ∃ p ∈ ps,
        getRoundUpPrice tie q.instrument p.1.price = some o.price) ∧
      ((∀ o ∈ orders, (o.side = .sell → price < o.price) ∧ 0 < o.quantity) ↔
        ∀ p ∈ placed, q.Fits tie price p) := by
  have hnil {α : Type} {P : α → Prop} : ∀ x ∈ ([] : List α), P x := fun x hx =>
    absurd hx List.not_mem_nil
  induction ps generalizing i orders placed with
  | nil =>
    subst horders hplaced
    exact ⟨rfl, rfl, hnil, iff_of_true hnil hnil⟩
  | cons p ps ih =>
    rcases q.quotePair_cases tie ids (q.quoteRange price) i p with
      ⟨hread, hpair⟩ | ⟨hread, buy, sell, hpair, hbuy, hsell, hbp, hbq, hsp, hsq⟩
    · rw [quotePairs, collect, hpair] at horders
      rw [List.takeWhile_cons_of_neg (by rw [hread]; exact Bool.false_ne_true)] at hplaced
      subst horders hplaced
      exact ⟨rfl, rfl, hnil, iff_of_true hnil hnil⟩
    · rw [quotePairs, collect, hpair] at horders
      rw [List.takeWhile_cons_of_pos hread] at hplaced
      change buy :: sell :: (q.quotePairs tie ids (q.quoteRange price) (i + 1) ps).1 = orders
        at horders
      generalize hrest : (q.quotePairs tie ids (q.quoteRange price) (i + 1) ps).1 = rest at horders
      generalize hbehind : ps.takeWhile (q.readable tie (q.quoteRange price)) = behind at hplaced
      obtain ⟨hbuys, hsells, hbelow, hfits⟩ := ih (i + 1) hrest hbehind
      subst horders hplaced
      refine ⟨?_, ?_, ?_, ?_⟩
      · rw [List.length_cons, ← hbuys]
        simp [hbuy, hsell]
      · rw [List.length_cons, ← hsells]
        simp [hbuy, hsell]
      · intro o ho hside
        rcases List.mem_cons.mp ho with rfl | ho
        · exact ⟨p, List.mem_cons_self, hbp⟩
        rcases List.mem_cons.mp ho with rfl | ho
        · rw [hsell] at hside
          cases hside
        · obtain ⟨p', hp', hprice⟩ := hbelow o ho hside
          exact ⟨p', List.mem_cons_of_mem p hp', hprice⟩
      · have hfit : q.Fits tie price p ↔
            price < sell.price ∧ 0 < buy.quantity ∧ 0 < sell.quantity := by
          simp only [Fits, hbq, hsp, hsq, Option.mem_some_iff, forall_eq']
        simp only [List.forall_mem_cons, hbuy, hsell, hfit, ← hfits]
        constructor
        · rintro ⟨⟨-, hbq⟩, ⟨hsp, hsq⟩, hrest⟩
          exact ⟨⟨hsp trivial, hbq, hsq⟩, hrest⟩
        · rintro ⟨⟨hsp, hbq, hsq⟩, hrest⟩
          exact ⟨⟨nofun, hbq⟩, ⟨fun _ => hsp, hsq⟩, hrest⟩

theorem quoteOrdersAtPrice_snd (q : MarketMakerQuotes) (tie : Tie) (ids : ℕ → OrderId) (price : ℚ) :
    (q.quoteOrdersAtPrice tie ids price).2 =
      (q.quotePairs tie ids (q.quoteRange price) 0 (q.pairs price)).1 := by
  rw [quoteOrdersAtPrice]
  split_ifs with hempty
  · have hpairs : q.pairs price = [] := by
      rcases hempty with hempty | hempty
      · rw [pairs, hempty, List.zip_nil_left, List.take_nil]
      · rw [pairs, hempty, List.zip_nil_right, List.take_nil]
    rw [hpairs]
    rfl
  · rcases q.quotePairs tie ids (q.quoteRange price) 0 (q.pairs price) with ⟨orders, done⟩
    cases done <;> rfl

/-- **The quotes are what they shall be** exactly if each pair that is placed fits. -/
theorem WellFormed.sound_iff_fits (h : q.WellFormed) (hprice : 0 < price) (tie : Tie)
    (ids : ℕ → OrderId) :
    q.Sound price (q.quoteOrdersAtPrice tie ids price).2 ↔
      ∀ p ∈ (q.pairs price).takeWhile (q.readable tie (q.quoteRange price)),
        q.Fits tie price p := by
  obtain ⟨hbuys, hsells, hbelow, hfits⟩ := q.quotePairs_spec tie ids price 0 (q.pairs price) rfl rfl
  rw [← hfits, quoteOrdersAtPrice_snd]
  constructor
  · exact fun hsound o ho => ⟨hsound.lt_sell o ho, hsound.quantity_pos o ho⟩
  · intro hall
    refine ⟨fun o ho hside => ?_, fun o ho => (hall o ho).1, fun o ho => (hall o ho).2,
      hbuys.trans hsells.symm, ?_, q.sum_quantity price⟩
    · obtain ⟨p, hp, hround⟩ := hbelow o ho hside
      obtain ⟨k, hk, -, hlt⟩ := h.buy_price hprice hp
      rw [hk] at hround
      exact (roundUp_natCast_le hround).trans_lt hlt
    · rw [hbuys]
      have hprefix := (List.takeWhile_prefix (q.readable tie (q.quoteRange price))
        (l := q.pairs price)).length_le
      exact (Nat.cast_le.mpr hprefix).trans (h.length_pairs_le price)

/-- The quantities of the two sides, the smaller one first. -/
theorem quantities (q : MarketMakerQuotes) (price : ℚ) (P : ℚ → Prop) :
    P (q.quoteRange price).buyQuantity ∧ P (q.quoteRange price).sellQuantity ↔
      P (q.volume * (1 - q.skewRatio)) ∧ P (q.volume * (1 + q.skewRatio)) := by
  rw [quoteRange]
  split_ifs
  · exact Iff.rfl
  · exact and_comm

/-- **Where no precision wraps**, a pair fits if the sell's bucket had a trade and both quantities
reach the lot size. -/
theorem WellFormed.fits_iff (h : q.WellFormed) (hprice : 0 < price) (tie : Tie)
    (hlot : q.instrument.lotSize < 2 ^ 63) (htick : q.instrument.tickSize < 2 ^ 63)
    {p : TradeVolumeAtPrice × TradeVolumeAtPrice} (hp : p ∈ q.pairs price) :
    q.readable tie (q.quoteRange price) p = true ∧
      (q.Fits tie price p ↔ p.2.price ≠ 0 ∧
        ReachesStep tie q.instrument.lotSize (q.volume * (1 - q.skewRatio))) := by
  obtain ⟨hskew0, hskew1⟩ := h.skewRatio_mem
  have hvolume := h.volume_pos
  have hbound := h.volume_lt
  -- the two prices are kept as they are
  have hnat {k : ℕ} (hk : k < maxBuckets) :
      getRoundUpPrice tie q.instrument (k : ℚ) = some (k : ℚ) := by
    refine roundUp_natCast ?_
    have hlt : (k : ℚ) < 2 ^ 64 := by exact_mod_cast hk.trans (by decide)
    have hpoint : point tie k ≤ 64 + 1 := point_le (Nat.cast_nonneg k) hlt
    omega
  -- a quantity is cut to a number
  have hquantity {x : ℚ} (h0 : 0 ≤ x) (hx : x < 2 ^ 1025) :
      (getRoundUpQuantity tie q.instrument x).isSome = true ∧
        ((∀ r ∈ getRoundUpQuantity tie q.instrument x, 0 < r) ↔
          ReachesStep tie q.instrument.lotSize x) := by
    have hfit : point tie x + q.instrument.lotSize + 1 < 2 ^ 64 := by
      have hpoint : point tie x ≤ 1025 + 1 := point_le h0 hx
      omega
    refine ⟨?_, roundUp_pos_iff h0 hfit⟩
    rw [getRoundUpQuantity, roundUp_of_lt h0 hfit]
    rfl
  have hsmall : 0 ≤ q.volume * (1 - q.skewRatio) := mul_nonneg hvolume.le (by linarith)
  have hle : q.volume * (1 - q.skewRatio) ≤ q.volume * (1 + q.skewRatio) :=
    mul_le_mul_of_nonneg_left (by linarith) hvolume.le
  have hlarge : q.volume * (1 + q.skewRatio) < 2 ^ 1025 := by
    calc q.volume * (1 + q.skewRatio) ≤ q.volume * 2 :=
          mul_le_mul_of_nonneg_left (by linarith) hvolume.le
      _ < 2 ^ 1024 * 2 := mul_lt_mul_of_pos_right hbound two_pos
      _ = 2 ^ 1025 := (pow_succ (2 : ℚ) 1024).symm
  have hlow := hquantity hsmall (hle.trans_lt hlarge)
  have hhigh := hquantity (hsmall.trans hle) hlarge
  have hsome := (q.quantities price fun x =>
    (getRoundUpQuantity tie q.instrument x).isSome = true).mpr ⟨hlow.1, hhigh.1⟩
  have hpos := q.quantities price fun x => ∀ r ∈ getRoundUpQuantity tie q.instrument x, 0 < r
  obtain ⟨k, hk, hklt, -⟩ := h.buy_price hprice hp
  obtain ⟨l, hl, hllt, habove⟩ := h.sell_price hp
  constructor
  · rw [readable, hk, hl, hnat hklt, hnat hllt, hsome.1, hsome.2]
    rfl
  · have hboth : ReachesStep tie q.instrument.lotSize (q.volume * (1 - q.skewRatio)) ∧
        ReachesStep tie q.instrument.lotSize (q.volume * (1 + q.skewRatio)) ↔
          ReachesStep tie q.instrument.lotSize (q.volume * (1 - q.skewRatio)) :=
      and_iff_left_of_imp fun hlow => hlow.mono hle
    rw [Fits, hpos, hlow.2, hhigh.2, hboth]
    refine and_congr_left' ?_
    rw [hl, hnat hllt]
    simp only [Option.mem_some_iff, forall_eq']
    constructor
    · exact fun hlt => (hprice.trans hlt).ne'
    · exact fun hne => habove (hl ▸ hne)

/-- **The quotes are what they shall be** exactly if every pair that is placed fits.  Where no
precision of the instrument wraps: exactly if nothing is quoted, or the smaller quantity reaches the
lot size and no sell goes into a bucket that never had a trade. -/
theorem quotesSound_iff (tie : Tie) (generateOrderId : ℕ → OrderId) (q : MarketMakerQuotes)
    (h : q.WellFormed) (price : ℚ) (hprice : 0 < price) :
    (q.Sound price (q.quoteOrdersAtPrice tie generateOrderId price).2 ↔
      ∀ p ∈ (q.pairs price).takeWhile (q.readable tie (q.quoteRange price)),
        q.Fits tie price p) ∧
    (q.instrument.lotSize < 2 ^ 63 → q.instrument.tickSize < 2 ^ 63 →
      (q.Sound price (q.quoteOrdersAtPrice tie generateOrderId price).2 ↔
        q.pairs price = [] ∨
          ReachesStep tie q.instrument.lotSize (q.volume * (1 - q.skewRatio)) ∧
            ∀ p ∈ q.pairs price, p.2.price ≠ 0)) := by
  refine ⟨h.sound_iff_fits hprice tie generateOrderId, fun hlot htick => ?_⟩
  have hfits {p} (hp : p ∈ q.pairs price) := h.fits_iff hprice tie hlot htick hp
  have hall : (q.pairs price).takeWhile (q.readable tie (q.quoteRange price)) = q.pairs price :=
    List.takeWhile_eq_self_iff.mpr fun p hp => (hfits hp).1
  rw [h.sound_iff_fits hprice, hall]
  constructor
  · intro hpairs
    refine (eq_or_ne (q.pairs price) []).imp_right fun hne => ?_
    obtain ⟨p, hp⟩ := List.exists_mem_of_ne_nil _ hne
    exact ⟨((hfits hp).2.mp (hpairs p hp)).2, fun p hp => ((hfits hp).2.mp (hpairs p hp)).1⟩
  · rintro (hnil | ⟨hlow, hsell⟩) p hp
    · rw [hnil] at hp
      exact absurd hp List.not_mem_nil
    · exact (hfits hp).2.mpr ⟨hsell p hp, hlow⟩

/-! ## Three markets around a price of 15 -/

/-- Trades at 1 and 30 and in between, one tick and lot of `0.1` and `0.001`. -/
def market (trades : List TradeUpdate) (minTradeVolume totalBuyVolume totalSellVolume : ℚ) :
    MarketMakerQuotes where
  instrument := .create .binance .perpetual "BTC_USDT" "BTCUSDT" 3 1
  volumeStat := (Run.exec VolumeRun.step .start
    ((⟨1, 1, true, 0⟩ :: ⟨30, 1, false, 0⟩ :: trades).map .addTradeVolume)).stat
  volume := 1 / 5
  minTradeVolume := minTradeVolume
  totalBuyVolume := totalBuyVolume
  totalSellVolume := totalSellVolume

theorem market_wellFormed (trades : List TradeUpdate) {minTradeVolume buy sell : ℚ}
    (hbuy : 0 ≤ buy) (hsell : 0 ≤ sell) (hpos : 0 < max buy sell) :
    (market trades minTradeVolume buy sell).WellFormed where
  reachable := ⟨_, rfl⟩
  totalBuyVolume_nonneg := hbuy
  totalSellVolume_nonneg := hsell
  total_pos := hpos
  volume_pos := by norm_num [market]
  volume_lt := (show (1 / 5 : ℚ) < 1 by norm_num).trans_le (one_le_pow₀ one_le_two)
  pairs_whole := ⟨1, rfl⟩

/-- A market that is quoted. -/
theorem balanced_sound :
    (market [⟨10, 2, true, 0⟩, ⟨20, 1, false, 0⟩] 1 3 2).Sound 15
      ((market [⟨10, 2, true, 0⟩, ⟨20, 1, false, 0⟩] 1 3 2).quoteOrdersAtPrice .even id 15).2 := by
  have hwell : (market [⟨10, 2, true, 0⟩, ⟨20, 1, false, 0⟩] 1 3 2).WellFormed :=
    market_wellFormed _ (by decide) (by decide) (by decide)
  refine ((quotesSound_iff .even id _ hwell 15 (by decide)).2 (by decide) (by decide)).mpr ?_
  exact Or.inr ⟨by decide +kernel, by decide +kernel⟩

/-- **Quotes that cross, and quotes that are empty**: without a minimum volume a sell goes to the
price 0 of a bucket that never had a trade; and a buy of `0.0008` is cut to nothing. -/
theorem quotes_not_sound :
    ((market [] 0 1 1).WellFormed ∧
      ¬ (market [] 0 1 1).Sound 15 ((market [] 0 1 1).quoteOrdersAtPrice .even id 15).2) ∧
    (market [⟨3, 249, true, 0⟩, ⟨17, 1, false, 0⟩] 1 250 1).WellFormed ∧
      ¬ (market [⟨3, 249, true, 0⟩, ⟨17, 1, false, 0⟩] 1 250 1).Sound 15
        ((market [⟨3, 249, true, 0⟩, ⟨17, 1, false, 0⟩] 1 250 1).quoteOrdersAtPrice .even id
          15).2 := by
  refine ⟨⟨market_wellFormed _ (by decide) (by decide) (by decide), fun h => ?_⟩,
    market_wellFormed _ (by decide) (by decide) (by decide), fun h => ?_⟩
  · exact absurd h.lt_sell (by decide +kernel)
  · exact absurd h.quantity_pos (by decide +kernel)

end MarketMakerQuotes

end TradingEngine
