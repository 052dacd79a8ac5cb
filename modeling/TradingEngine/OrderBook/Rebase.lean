import TradingEngine.OrderBook.Resync

/-!
# OrderBook/Rebase — what a rebase keeps and what it drops

A rebase moves both sides to the best bid.  The best bid is then the centre of the window, so
nothing of it is lost; a level goes exactly when its price is outside the new window.  The ask that
triggers a rebase can be one of these: in a crossed book it lies below the bid, as far as the old
window reaches.
-/

namespace TradingEngine

open Grid

namespace OrderBookSide

variable {s s' : OrderBookSide} {b p : ℚ}

/-- **A side is what it holds**: its geometry and its quantities, if array, bitmap and cache
agree. -/
theorem eq_of_quantityAtIndex (hs : s.Inv) (hs' : s'.Inv) (hgeometry : s.geometry = s'.geometry)
    (hquantity : ∀ i, s.quantityAtIndex i = s'.quantityAtIndex i) : s = s' := by
  have hfilled : s.filled = s'.filled := by
    ext i
    rw [filled, filled, Set.mem_ofPred_eq, Set.mem_ofPred_eq, hquantity]
  have hside : s.side = s'.side := congrArg (·.1) hgeometry
  have htop : s.topIndex = s'.topIndex := by
    rcases s.filled.eq_empty_or_nonempty with hempty | hne
    · rw [(topIndex_eq_invalidIndex_iff hs).mpr hempty,
        (topIndex_eq_invalidIndex_iff hs').mpr (hfilled ▸ hempty)]
    · have hbest := isBest_topIndex hs' (hfilled ▸ hne)
      rw [← hside, ← hfilled] at hbest
      exact (isBest_topIndex hs hne).unique hbest
  have hmarked : ∀ i, s.marked i = s'.marked i := fun i => by
    rw [Bool.eq_iff_iff, hs.marked_iff, hs'.marked_iff, hfilled]
  obtain ⟨side, base, tick, depth, levels, words, top, _, _, _⟩ := s
  obtain ⟨side', base', tick', depth', levels', words', top', _, _, _⟩ := s'
  simp only [geometry, Prod.mk.injEq] at hgeometry
  obtain ⟨rfl, rfl, rfl, rfl⟩ := hgeometry
  obtain rfl : top = top' := htop
  obtain rfl : words = words' := Bitmap.eq_of_test hmarked
  obtain rfl : levels = levels' := by
    refine Vector.ext fun i hi => ?_
    have hi' := hquantity i
    simpa [quantityAtIndex, hi] using hi'
  rfl

theorem quantityAtIndex_eq_getQuantity {i : ℕ} (hi : i < s.depth) :
    s.quantityAtIndex i = s.getQuantity (s.indexToPrice i) := by
  rw [getQuantity_eq, s.priceToIndex_indexToPrice hi]

/-- …read at the prices of its grid. -/
theorem eq_of_getQuantity (hs : s.Inv) (hs' : s'.Inv) (hgeometry : s.geometry = s'.geometry)
    (hquantity : ∀ p, s.OnGrid p → s.getQuantity p = s'.getQuantity p) : s = s' := by
  refine eq_of_quantityAtIndex hs hs' hgeometry fun i => ?_
  have hdepth : s.depth = s'.depth := congrArg (·.2.2.2) hgeometry
  rcases lt_or_ge i s.depth with hi | hi
  · rw [quantityAtIndex_eq_getQuantity hi, quantityAtIndex_eq_getQuantity (hdepth ▸ hi),
      ← indexToPrice_congr hgeometry]
    exact hquantity _ (s.onGrid_indexToPrice i)
  · have hzero : ∀ t : OrderBookSide, t.depth ≤ i → t.quantityAtIndex i = 0 := fun t ht =>
      not_not.mp (mt t.lt_depth_of_quantityAtIndex_ne_zero (not_lt.mpr ht))
    rw [hzero s hi, hzero s' (hdepth ▸ hi)]

/-- The base is at the centre. -/
theorem priceToIndex_basePrice : s.priceToIndex s.basePrice = s.depth / 2 := by
  have hcenter : s.indexToPrice (s.depth / 2) = s.basePrice := by
    rw [indexToPrice, centerIndex, sub_self, Int.cast_zero, zero_mul, add_zero]
  conv_lhs => rw [← hcenter]
  exact s.priceToIndex_indexToPrice (Nat.div_lt_self s.depth_pos one_lt_two)

theorem window_basePrice : s.Window s.basePrice := by
  rw [← s.priceToIndex_lt_iff (onGrid_self ..), priceToIndex_basePrice]
  exact Nat.div_lt_self s.depth_pos one_lt_two

theorem window_of_mem_filledPrices (hp : p ∈ s.filledPrices) : s.Window p := by
  obtain ⟨i, hi, rfl⟩ := hp
  rw [← s.priceToIndex_lt_iff (s.onGrid_indexToPrice i),
    s.priceToIndex_indexToPrice (lt_depth_of_mem_filled hi)]
  exact lt_depth_of_mem_filled hi

/-- The top is one of the filled prices, with its quantity. -/
theorem getTopQuantity_eq (hs : s.Inv) (hne : s.filled.Nonempty) :
    s.getTopQuantity = s.getQuantity s.getTopPrice := by
  obtain ⟨-, i, hi, hprice, hquantity⟩ := getTop_of_nonempty hs hne
  rw [hprice, hquantity, quantityAtIndex_eq_getQuantity (lt_depth_of_mem_filled hi)]

/-- **A move keeps the filled prices of the new window.** -/
theorem mem_filledPrices_moveToNewBasePrice (hb : s.OnGrid b) :
    p ∈ (s.moveToNewBasePrice b).filledPrices ↔
      p ∈ s.filledPrices ∧ InWindow s.tickSize s.depth b p := by
  have hgrid : (s.moveToNewBasePrice b).OnGrid p ↔ s.OnGrid p := by
    rw [OnGrid, OnGrid, moveToNewBasePrice_basePrice, moveToNewBasePrice_tickSize]
    exact ⟨hb.trans, hb.rebase⟩
  rw [mem_filledPrices_iff, mem_filledPrices_iff, hgrid, and_assoc]
  refine and_congr_right fun hp => ?_
  rw [s.getQuantity_moveToNewBasePrice hb hp]
  split
  · exact ⟨fun _ => ‹_›, And.left⟩
  · exact iff_of_false (lt_irrefl 0) ‹_›

/-- **A top of the new window stays the top.** -/
theorem getTop_moveToNewBasePrice (hs : s.Inv) (hb : s.OnGrid b) (hne : s.filled.Nonempty)
    (hin : InWindow s.tickSize s.depth b s.getTopPrice) :
    (s.moveToNewBasePrice b).filled.Nonempty ∧
      (s.moveToNewBasePrice b).getTopPrice = s.getTopPrice ∧
      (s.moveToNewBasePrice b).getTopQuantity = s.getTopQuantity := by
  have hinv := s.inv_moveToNewBasePrice b
  have hbest := (getTop_of_nonempty hs hne).1
  have hmem := (mem_filledPrices_moveToNewBasePrice hb).mpr ⟨hbest.mem, hin⟩
  have hne' : (s.moveToNewBasePrice b).filled.Nonempty := by
    obtain ⟨i, hi, -⟩ := hmem
    exact ⟨i, hi⟩
  have hprice : (s.moveToNewBasePrice b).getTopPrice = s.getTopPrice := by
    have hbest' := (getTop_of_nonempty hinv hne').1
    rw [moveToNewBasePrice_side] at hbest'
    exact hbest'.unique (hbest.mono (fun q hq => (mem_filledPrices_moveToNewBasePrice hb).mp hq |>.1)
      hmem)
  refine ⟨hne', hprice, ?_⟩
  obtain ⟨htop, hpos⟩ := s.mem_filledPrices_iff.mp hbest.mem
  rw [getTopQuantity_eq hinv hne', getTopQuantity_eq hs hne, hprice,
    s.getQuantity_moveToNewBasePrice hb htop, if_pos ⟨hpos, hin⟩]

/-- **A side that was moved is not changed by a second move to the same base.** -/
theorem moveToNewBasePrice_self (hb : s.OnGrid b) :
    (s.moveToNewBasePrice b).moveToNewBasePrice b = s.moveToNewBasePrice b := by
  have hgeometry : ((s.moveToNewBasePrice b).moveToNewBasePrice b).geometry =
      (s.moveToNewBasePrice b).geometry := by
    rw [moveToNewBasePrice_geometry, moveToNewBasePrice_geometry, moveToNewBasePrice_side,
      moveToNewBasePrice_tickSize, moveToNewBasePrice_depth]
  refine eq_of_getQuantity (inv_moveToNewBasePrice _ b) (s.inv_moveToNewBasePrice b) hgeometry
    fun p hp => ?_
  have hself : (s.moveToNewBasePrice b).OnGrid b := by
    rw [OnGrid, moveToNewBasePrice_basePrice]
    exact onGrid_self ..
  rw [OnGrid, moveToNewBasePrice_basePrice, moveToNewBasePrice_tickSize,
    moveToNewBasePrice_tickSize] at hp
  have hp' : (s.moveToNewBasePrice b).OnGrid p := by
    rwa [OnGrid, moveToNewBasePrice_basePrice, moveToNewBasePrice_tickSize]
  rw [getQuantity_moveToNewBasePrice _ hself hp', s.getQuantity_moveToNewBasePrice hb (hb.trans hp),
    moveToNewBasePrice_tickSize, moveToNewBasePrice_depth]
  split
  · rfl
  · rw [if_neg fun h => lt_irrefl (0 : ℚ) h.1]

end OrderBookSide

namespace OrderBook

variable {b b' : OrderBook} {origin : ℚ}

theorem eq_of_getSide (h : ∀ t, b.getSide t = b'.getSide t)
    (hinstrument : b.instrument = b'.instrument) (hdelta : b.rebaseDelta = b'.rebaseDelta) : b = b' := by
  obtain ⟨bids, asks, _, _, _, _, _, _, _⟩ := b
  obtain ⟨bids', asks', _, _, _, _, _, _, _⟩ := b'
  obtain rfl : bids = bids' := h .bid
  obtain rfl : asks = asks' := h .ask
  obtain rfl := hinstrument
  obtain rfl := hdelta
  rfl

/-- A book that rebases has a bid and an ask. -/
theorem filled_nonempty_of_shouldRebase (hinv : ∀ t, (b.getSide t).Inv)
    (h : b.shouldRebase = true) (t : OrderBookSideType) : (b.getSide t).filled.Nonempty := by
  rw [shouldRebase, hasSpread, Bool.and_eq_true, Bool.and_eq_true] at h
  have htop : (b.getSide t).topIndex ≠ invalidIndex := by
    cases t
    · exact of_decide_eq_true h.1.1
    · exact of_decide_eq_true h.1.2
  rw [Set.nonempty_iff_ne_empty]
  exact mt (OrderBookSide.topIndex_eq_invalidIndex_iff (hinv t)).mpr htop

/-- The tops of a book. -/
theorem getTopPrice_mem (hinv : ∀ t, (b.getSide t).Inv) (h : b.shouldRebase = true)
    (t : OrderBookSideType) : (b.getSide t).getTopPrice ∈ (b.getSide t).filledPrices :=
  (OrderBookSide.getTop_of_nonempty (hinv t) (filled_nonempty_of_shouldRebase hinv h t)).1.mem

/-- The best bid is on the grid of both sides. -/
theorem onGrid_bestBidPrice (hinv : ∀ t, (b.getSide t).Inv) (h : b.shouldRebase = true)
    (t : OrderBookSideType) : (b.getSide t).OnGrid b.bestBidPrice := by
  have hbid := ((b.getSide .bid).mem_filledPrices_iff.mp (getTopPrice_mem hinv h .bid)).1
  rw [OrderBookSide.OnGrid, getSide_basePrice, getSide_tickSize] at hbid ⊢
  exact hbid

theorem maybeRebase_of_shouldRebase (h : b.shouldRebase = true) :
    b.maybeRebase = b.moveToNewBasePrice b.bestBidPrice := if_pos h

theorem maybeRebase_of_not_shouldRebase (h : ¬ b.shouldRebase = true) : b.maybeRebase = b :=
  if_neg h

/-- **A side keeps its top in a rebase** if the new window has it. -/
theorem getTop_maybeRebase (hinv : ∀ t, (b.getSide t).Inv) (h : b.shouldRebase = true)
    {t : OrderBookSideType}
    (hin : InWindow b.tickSize b.depth b.bestBidPrice (b.getSide t).getTopPrice) :
    (b.maybeRebase.getSide t).filled.Nonempty ∧
      (b.maybeRebase.getSide t).getTopPrice = (b.getSide t).getTopPrice ∧
      (b.maybeRebase.getSide t).getTopQuantity = (b.getSide t).getTopQuantity := by
  rw [maybeRebase_of_shouldRebase h, getSide_moveToNewBasePrice]
  refine OrderBookSide.getTop_moveToNewBasePrice (hinv t) (onGrid_bestBidPrice hinv h t)
    (filled_nonempty_of_shouldRebase hinv h t) ?_
  rwa [getSide_tickSize, getSide_depth]

/-- The best bid is in the window around it. -/
theorem inWindow_bestBidPrice (b : OrderBook) :
    InWindow b.tickSize b.depth b.bestBidPrice b.bestBidPrice := by
  have hwindow := (b.moveToNewBasePrice b.bestBidPrice).bids.window_basePrice
  rw [OrderBookSide.Window, moveToNewBasePrice, OrderBookSide.moveToNewBasePrice_basePrice,
    OrderBookSide.moveToNewBasePrice_tickSize, OrderBookSide.moveToNewBasePrice_depth] at hwindow
  exact hwindow

/-- **The best bid survives.** -/
theorem bestBid_maybeRebase (hinv : ∀ t, (b.getSide t).Inv) :
    b.maybeRebase.hasBestBid = b.hasBestBid ∧ b.maybeRebase.bestBidPrice = b.bestBidPrice ∧
      b.maybeRebase.bestBidQuantity = b.bestBidQuantity := by
  by_cases h : b.shouldRebase = true
  · have hinv' : (b.maybeRebase.getSide .bid).Inv := by
      rw [maybeRebase_of_shouldRebase h]
      exact OrderBookSide.inv_moveToNewBasePrice _ _
    obtain ⟨hne, hprice, hquantity⟩ := getTop_maybeRebase hinv h b.inWindow_bestBidPrice (t := .bid)
    refine ⟨?_, hprice, hquantity⟩
    have htop : ∀ b : OrderBook, (b.getSide .bid).Inv → (b.getSide .bid).filled.Nonempty →
        b.hasBestBid = true := fun b hb hne =>
      decide_eq_true (mt (OrderBookSide.topIndex_eq_invalidIndex_iff hb).mp hne.ne_empty)
    rw [htop _ hinv' hne, htop b (hinv .bid) (filled_nonempty_of_shouldRebase hinv h .bid)]
  · rw [maybeRebase_of_not_shouldRebase h]
    exact ⟨rfl, rfl, rfl⟩

/-- **A second rebase changes nothing**, wherever the rebase delta triggers one again. -/
theorem maybeRebase_idempotent (hinv : ∀ t, (b.getSide t).Inv) :
    b.maybeRebase.maybeRebase = b.maybeRebase := by
  by_cases hagain : b.maybeRebase.shouldRebase = true
  · by_cases h : b.shouldRebase = true
    · rw [maybeRebase_of_shouldRebase hagain, (bestBid_maybeRebase hinv).2.1,
        maybeRebase_of_shouldRebase h]
      refine eq_of_getSide (fun t => ?_) rfl rfl
      simp only [getSide_moveToNewBasePrice]
      exact OrderBookSide.moveToNewBasePrice_self (onGrid_bestBidPrice hinv h t)
    · rw [maybeRebase_of_not_shouldRebase h]
      exact maybeRebase_of_not_shouldRebase h
  · exact maybeRebase_of_not_shouldRebase hagain

/-- **A level is dropped exactly when it falls outside the new window**, and none is changed. -/
theorem levels_maybeRebase (hinv : ∀ t, (b.getSide t).Inv) (t : OrderBookSideType) (p : ℚ) :
    (p ∈ (b.maybeRebase.getSide t).filledPrices ↔
        p ∈ (b.getSide t).filledPrices ∧
          InWindow b.tickSize b.depth b.maybeRebase.basePrice p) ∧
      (p ∈ (b.maybeRebase.getSide t).filledPrices →
        (b.maybeRebase.getSide t).getQuantity p = (b.getSide t).getQuantity p) := by
  by_cases h : b.shouldRebase = true
  · have hb := onGrid_bestBidPrice hinv h t
    have hbase : (b.moveToNewBasePrice b.bestBidPrice).basePrice = b.bestBidPrice :=
      b.bids.moveToNewBasePrice_basePrice _
    rw [maybeRebase_of_shouldRebase h, getSide_moveToNewBasePrice, hbase,
      OrderBookSide.mem_filledPrices_moveToNewBasePrice hb, getSide_tickSize, getSide_depth]
    refine ⟨Iff.rfl, fun ⟨hp, hin⟩ => ?_⟩
    obtain ⟨hgrid, hpos⟩ := (b.getSide t).mem_filledPrices_iff.mp hp
    rw [(b.getSide t).getQuantity_moveToNewBasePrice hb hgrid, if_pos]
    exact ⟨hpos, by rwa [getSide_tickSize, getSide_depth]⟩
  · rw [maybeRebase_of_not_shouldRebase h]
    refine ⟨(and_iff_left_of_imp fun hp => ?_).symm, fun _ => rfl⟩
    have hwindow := OrderBookSide.window_of_mem_filledPrices hp
    rwa [OrderBookSide.Window, getSide_tickSize, getSide_depth, getSide_basePrice] at hwindow

/-- **The best bid is the centre of a book that was rebased.** -/
theorem bestBid_centered (hinv : ∀ t, (b.getSide t).Inv) (h : b.shouldRebase = true)
    (t : OrderBookSideType) :
    (b.maybeRebase.getSide t).priceToIndex b.maybeRebase.bestBidPrice = b.depth / 2 := by
  have hbase : (b.maybeRebase.getSide t).basePrice = b.maybeRebase.bestBidPrice := by
    rw [(bestBid_maybeRebase hinv).2.1, maybeRebase_of_shouldRebase h, getSide_moveToNewBasePrice,
      OrderBookSide.moveToNewBasePrice_basePrice]
  have hdepth : (b.maybeRebase.getSide t).depth = b.depth := by
    rw [maybeRebase_of_shouldRebase h, getSide_moveToNewBasePrice,
      OrderBookSide.moveToNewBasePrice_depth, getSide_depth]
  rw [← hbase, OrderBookSide.priceToIndex_basePrice, hdepth]

/-- An ask less than `depth / 2 - 1` ticks above the bid is below the upper end of the window around
the bid. -/
theorem inWindow_of_lt {tick : ℚ} (htick : 0 < tick) {depth : ℕ} {bid ask : ℚ}
    (hgrid : OnGrid bid tick ask) (hlow : bid - (depth / 2 : ℕ) * tick ≤ ask)
    (hhigh : ask < bid + ((depth : ℚ) / 2 - 1) * tick) : InWindow tick depth bid ask := by
  obtain ⟨k, rfl⟩ := hgrid
  have hk : -((depth / 2 : ℕ) : ℤ) ≤ k := by
    rw [sub_eq_add_neg, add_le_add_iff_left, ← neg_mul, mul_le_mul_iff_of_pos_right htick] at hlow
    exact_mod_cast hlow
  have hk' : 2 * k + 2 < depth := by
    rw [add_lt_add_iff_left, mul_lt_mul_iff_of_pos_right htick] at hhigh
    have hticks : 2 * (k : ℚ) + 2 < depth := by linarith
    exact_mod_cast hticks
  rw [inWindow_offset_iff htick (by omega)]
  omega

/-- **A rebase**: the best bid is kept, with its quantity, and becomes the centre; exactly the levels
of the new window are kept; and so is an ask that is at most `depth / 2` ticks below the bid and
less than `depth / 2 - 1` ticks above it. -/
theorem maybeRebase_correct (hinv : ∀ t, (b.getSide t).Inv)
    (hbase : OnGrid origin b.tickSize b.basePrice) :
    b.maybeRebase.maybeRebase = b.maybeRebase ∧
      (b.maybeRebase.hasBestBid = b.hasBestBid ∧ b.maybeRebase.bestBidPrice = b.bestBidPrice ∧
        b.maybeRebase.bestBidQuantity = b.bestBidQuantity) ∧
      OnGrid origin b.tickSize b.maybeRebase.basePrice ∧
      (∀ t p, (p ∈ (b.maybeRebase.getSide t).filledPrices ↔
          p ∈ (b.getSide t).filledPrices ∧
            InWindow b.tickSize b.depth b.maybeRebase.basePrice p) ∧
        (p ∈ (b.maybeRebase.getSide t).filledPrices →
          (b.maybeRebase.getSide t).getQuantity p = (b.getSide t).getQuantity p)) ∧
      (b.shouldRebase = true →
        (∀ t, (b.maybeRebase.getSide t).priceToIndex b.maybeRebase.bestBidPrice = b.depth / 2) ∧
        (b.bestBidPrice - (b.depth / 2 : ℕ) * b.tickSize ≤ b.bestAskPrice →
          b.bestAskPrice < b.bestBidPrice + ((b.depth : ℚ) / 2 - 1) * b.tickSize →
          b.maybeRebase.bestAskPrice = b.bestAskPrice ∧
            b.maybeRebase.bestAskQuantity = b.bestAskQuantity)) := by
  refine ⟨maybeRebase_idempotent hinv, bestBid_maybeRebase hinv, ?_, levels_maybeRebase hinv,
    fun h => ⟨bestBid_centered hinv h, fun hlow hhigh => ?_⟩⟩
  · exact (Placed.maybeRebase ⟨hinv, rfl, rfl, hbase⟩).base_onGrid
  · have hask := ((b.getSide .ask).mem_filledPrices_iff.mp (getTopPrice_mem hinv h .ask)).1
    have hgrid : OnGrid b.bestBidPrice b.tickSize b.bestAskPrice := by
      have hb := onGrid_bestBidPrice hinv h .ask
      rw [OrderBookSide.OnGrid, getSide_tickSize] at hask hb
      exact hb.rebase hask
    exact (getTop_maybeRebase hinv h (t := .ask)
      (inWindow_of_lt b.bids.tick_pos hgrid hlow hhigh)).2

end OrderBook

/-! ## Two books of ten ticks -/

/-- A new book of ten ticks around 1000, then a bid and an ask. -/
def bookWith (bid ask : ℚ) : OrderBook :=
  ((OrderBook.fresh none 1000 1 10 1 unitTick_pos (by norm_num) (by decide)).setSideLevel .bid bid
    1).setSideLevel .ask ask 1

theorem placed_bookWith (bid ask : ℚ) : Placed 1000 1 10 (bookWith bid ask) := by
  have hfresh : Placed 1000 1 10
      (.fresh none 1000 1 10 1 unitTick_pos (by norm_num) (by decide)) :=
    @Placed.exec _ _ _ none 1 _ rfl []
  exact (hfresh.setSideLevel .bid bid 1).setSideLevel .ask ask 1

theorem onGrid_bookWith (bid ask : ℚ) :
    OnGrid 1000 (bookWith bid ask).tickSize (bookWith bid ask).basePrice := by
  rw [(placed_bookWith bid ask).tick_eq]
  exact (placed_bookWith bid ask).base_onGrid

/-- **An ask seven ticks below the bid is dropped**: it is below the window of the bid. -/
theorem crossedBook_ask_dropped :
    (∀ t, ((bookWith 1004 997).getSide t).Inv) ∧
      OnGrid 1000 (bookWith 1004 997).tickSize (bookWith 1004 997).basePrice ∧
      (bookWith 1004 997).shouldRebase = true ∧
      (bookWith 1004 997).bestAskPrice < (bookWith 1004 997).bestBidPrice +
        (((bookWith 1004 997).depth : ℚ) / 2 - 1) * (bookWith 1004 997).tickSize ∧
      ¬ ((bookWith 1004 997).maybeRebase.bestAskPrice = (bookWith 1004 997).bestAskPrice ∧
        (bookWith 1004 997).maybeRebase.bestAskQuantity =
          (bookWith 1004 997).bestAskQuantity) := by
  refine ⟨(placed_bookWith 1004 997).inv, onGrid_bookWith 1004 997, ?_, ?_, ?_⟩
  · decide +kernel
  · decide +kernel
  · decide +kernel

/-- An ask at the upper end makes the book rebase on the bid two ticks below it. -/
theorem wideBook_rebased :
    (bookWith 1002 1004).shouldRebase = true ∧
      (bookWith 1002 1004).maybeRebase.maybeRebase = (bookWith 1002 1004).maybeRebase ∧
      (bookWith 1002 1004).maybeRebase.bids.priceToIndex
        (bookWith 1002 1004).maybeRebase.bestBidPrice = 5 ∧
      (bookWith 1002 1004).maybeRebase.bestAskPrice = 1004 := by
  obtain ⟨hidempotent, -, -, -, hrebased⟩ := OrderBook.maybeRebase_correct
    (placed_bookWith 1002 1004).inv (onGrid_bookWith 1002 1004)
  have htriggered : (bookWith 1002 1004).shouldRebase = true := by decide +kernel
  obtain ⟨hcentered, hask⟩ := hrebased htriggered
  have hprice : (bookWith 1002 1004).bestAskPrice = 1004 := by decide +kernel
  have hdepth := (placed_bookWith 1002 1004).depth_eq
  refine ⟨htriggered, hidempotent, (hcentered .bid).trans (by rw [hdepth]),
    (hask ?_ ?_).1.trans hprice⟩
  · decide +kernel
  · decide +kernel

end TradingEngine
