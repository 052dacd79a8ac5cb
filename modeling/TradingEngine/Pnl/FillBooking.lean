import TradingEngine.MarketMaker.StateRun
import TradingEngine.MeanReversion.StateRun
import TradingEngine.Order.FillAccounting
import TradingEngine.Pnl.Conservation

/-!
# Pnl/FillBooking — the profit of a strategy against the fills of the exchange

The manager hands a strategy the totals of an order and the price of its last fill; the strategies
book an order once, when it is `FILLED`.  Until then the fills of an order are *pending*.  What is
booked and what is pending together make up all the fills (`Ledger`), as long as each filled order
has its last price for its average and no order is canceled with something filled.  With nothing
pending, the profit is that of the fills: `strategies_agree_with_fills`.
-/

namespace TradingEngine

open Run OrderManager OrderTradeUpdate

/-! ## One order, booked -/

/-- What both strategies do to their `PnL` with an order update. -/
def PnL.bookOrder (pnl : PnL) (order : Order) : PnL :=
  if order.status = .filled then
    pnl.updateTrade order.filledPrice order.signedFilledQuantity order.fee
  else pnl

namespace OrderTradeUpdate

/-- The sign of a side. -/
def sign (u : OrderTradeUpdate) : ℚ :=
  match OrderSide.ofName u.S with
  | .buy => 1
  | .sell => -1

/-- The quantity of the fill with the sign of its side, if the message reports one. -/
def signedFill (u : OrderTradeUpdate) : ℚ := u.sign * u.fillQuantity

/-- What the fill gains from its own price to `p`, less its fee. -/
def fillGain (p : ℚ) (u : OrderTradeUpdate) : ℚ := u.signedFill * (p - u.L) - u.fillFee

variable {u : OrderTradeUpdate}

theorem signedFill_of_not_isFill (h : u.isFill = false) : u.signedFill = 0 := by
  simp [signedFill, fillQuantity, h]

theorem fillGain_of_not_isFill (h : u.isFill = false) (p : ℚ) : u.fillGain p = 0 := by
  simp [fillGain, signedFill_of_not_isFill h, fillFee, h]

end OrderTradeUpdate

/-- The profit agrees with the fills: position, and worth at every mark price. -/
def PnL.Agrees (pnl : PnL) (fills : List OrderTradeUpdate) : Prop :=
  pnl.volume = (fills.map signedFill).sum ∧
    ∀ p, pnl.realized + pnl.volume * (p - pnl.avgPrice) =
      (fills.map fun u => u.signedFill * (p - u.L)).sum - (fills.map fillFee).sum

namespace OrderFlow

variable (s : OrderFlow)

instance decidableClosed (i : OrderId) : Decidable (s.Closed i) :=
  inferInstanceAs (Decidable (∃ u ∈ s.history i, u.isTerminal = true))

/-- The messages of the orders that have not ended. -/
def pending : List OrderTradeUpdate := s.log.filter fun u => ¬ s.Closed u.orderId

/-- No order that has not ended has a fill. -/
def NoneHalfWay : Prop := ∀ u ∈ s.log, u.isFill = true → s.Closed u.orderId

instance decidableNoneHalfWay : Decidable s.NoneHalfWay :=
  inferInstanceAs (Decidable (∀ u ∈ s.log, u.isFill = true → s.Closed u.orderId))

/-- The steps of the runs considered: messages of nonzero ids in the order of each order's life, of
one side for each order, with fills of whole lots that leave something to fill until the last one;
and database tasks. -/
def FillStep (lot : ℚ) : OrderEvent → Prop
  | .message u =>
    u.orderId ≠ 0 ∧ u.Follows (s.history u.orderId) ∧
      (∀ v ∈ s.history u.orderId, OrderSide.ofName v.S = OrderSide.ofName u.S) ∧
      (u.isFill = true → 0 < u.l ∧ PnL.Lots lot u.l) ∧
      (u.X = "PARTIALLY_FILLED" →
        ((s.history u.orderId ++ [u]).map fillQuantity).sum ≠ u.q)
  | .update _ => False
  | .database => True

/-- **The condition.**  The average price of a `FILLED` order is the price of its last fill, and a
`CANCELED` order has no fills. -/
def LastPriceIsAverage : OrderEvent → Prop
  | .message u =>
    (u.X = "FILLED" → ((s.history u.orderId ++ [u]).map fun v => v.fillQuantity * v.L).sum =
      ((s.history u.orderId ++ [u]).map fillQuantity).sum * u.L) ∧
    (u.X = "CANCELED" → ∀ v ∈ s.history u.orderId, v.isFill = false)
  | .update _ | .database => True

instance decidableLastPriceIsAverage : DecidablePred s.LastPriceIsAverage
  | .message u =>
    inferInstanceAs (Decidable
      ((u.X = "FILLED" → ((s.history u.orderId ++ [u]).map fun v => v.fillQuantity * v.L).sum =
        ((s.history u.orderId ++ [u]).map fillQuantity).sum * u.L) ∧
      (u.X = "CANCELED" → ∀ v ∈ s.history u.orderId, v.isFill = false)))
  | .update _ | .database => .isTrue trivial

/-! ## What is pending -/

variable {s}

/-- A message that does not end its order adds to what is pending. -/
theorem sum_pending_append {u : OrderTradeUpdate} (hopen : ¬ s.Closed u.orderId)
    (hterm : u.isTerminal = false) (f : OrderTradeUpdate → ℚ) :
    ((pending { s with log := s.log ++ [u] }).map f).sum = (s.pending.map f).sum + f u := by
  have hclosed : ∀ i, Closed { s with log := s.log ++ [u] } i ↔ s.Closed i := by
    intro i
    rw [Closed, Closed, history_append]
    split
    · simp [hterm]
    · rfl
  simp only [pending, hclosed, List.filter_append, List.map_append, List.sum_append]
  simp [hopen]

/-- A message that ends its order takes the order's history out. -/
theorem sum_pending_terminal {u : OrderTradeUpdate} (hopen : ¬ s.Closed u.orderId)
    (hterm : u.isTerminal = true) (f : OrderTradeUpdate → ℚ) :
    (s.pending.map f).sum =
      ((s.history u.orderId).map f).sum +
        ((pending { s with log := s.log ++ [u] }).map f).sum := by
  have hclosed : ∀ i, Closed { s with log := s.log ++ [u] } i ↔ i = u.orderId ∨ s.Closed i := by
    intro i
    rw [Closed, Closed, history_append]
    by_cases hi : u.orderId = i
    · simp [hi, hterm]
    · simp [hi, Ne.symm hi]
  have hself : s.pending.filter (fun v => v.orderId = u.orderId) = s.history u.orderId := by
    rw [pending, history, List.filter_filter]
    refine List.filter_congr fun v _ => ?_
    by_cases hv : v.orderId = u.orderId
    · simp [hv, hopen]
    · simp [hv]
  have hrest : s.pending.filter (fun v => ¬ v.orderId = u.orderId) =
      pending { s with log := s.log ++ [u] } := by
    rw [pending, pending, List.filter_filter, List.filter_append]
    have hu : [u].filter (fun v => ¬ Closed { s with log := s.log ++ [u] } v.orderId) = [] := by
      simp [hclosed]
    rw [hu, List.append_nil]
    refine List.filter_congr fun v _ => ?_
    by_cases hv : v.orderId = u.orderId <;> simp [hclosed, hv]
  rw [← hself, ← hrest]
  exact (List.sum_map_filter_add_sum_map_filter_not _ f _).symm

/-- What is pending depends on the log only. -/
theorem pending_congr {s' : OrderFlow} (h : s'.log = s.log) : s'.pending = s.pending := by
  obtain ⟨_, _, _⟩ := s
  obtain ⟨_, _, _⟩ := s'
  cases h
  rfl

/-- Messages that are no fills add up to nothing. -/
theorem sum_eq_zero_of_not_isFill {fills : List OrderTradeUpdate} {f : OrderTradeUpdate → ℚ}
    (h : ∀ v ∈ fills, v.isFill = false) (hf : ∀ v, v.isFill = false → f v = 0) :
    (fills.map f).sum = 0 := by
  refine List.sum_eq_zero fun x hx => ?_
  obtain ⟨v, hv, rfl⟩ := List.mem_map.mp hx
  exact hf v (h v hv)

/-! ## The ledger -/

/-- What is booked and what is pending make up all the fills. -/
structure Ledger (lot : ℚ) (s : OrderFlow) (pnl : PnL) : Prop where
  accounts : ∀ i, i ≠ 0 → s.Inv i
  lots : ∀ u ∈ s.log, u.isFill = true → 0 < u.l ∧ PnL.Lots lot u.l
  volume_lots : PnL.Lots lot pnl.volume
  volume_eq : pnl.volume + (s.pending.map signedFill).sum = (s.log.map signedFill).sum
  worth_eq : ∀ p, pnl.worth p + (s.pending.map (fillGain p)).sum = (s.log.map (fillGain p)).sum

theorem ledger_init (lot : ℚ) (loaded : OrderMap) : Ledger lot { manager := .init loaded } {} where
  accounts i _ := inv_init loaded i
  lots _ hu := absurd hu List.not_mem_nil
  volume_lots := ⟨0, by simp⟩
  volume_eq := by simp [pending]
  worth_eq p := by simp [pending, PnL.worth]

variable {lot : ℚ} {pnl : PnL} {u : OrderTradeUpdate}

/-- The account of every order is kept by a step that meets the condition. -/
theorem Ledger.accounts_step (h : Ledger lot s pnl) {e : OrderEvent} (hlegal : s.FillStep lot e)
    (hcond : s.LastPriceIsAverage e) (i : OrderId) (hi : i ≠ 0) : (next step s e).Inv i := by
  have hlegal' : s.Legal i e := by
    cases e with
    | message u => exact fun hu => hu ▸ hlegal.2.1
    | update order => exact absurd hlegal not_false
    | database => trivial
  refine ((h.accounts i hi).step hi hlegal').2 ?_
  cases e with
  | message u =>
    -- without a fill the sums are all zero
    intro hu hX
    subst hu
    have hnone := hcond.2 hX
    exact ⟨(sum_eq_zero_of_not_isFill hnone fun v hv => by simp [fillQuantity, hv]).symm,
      (sum_eq_zero_of_not_isFill hnone fun v hv => by simp [fillFee, hv]).symm,
      (sum_eq_zero_of_not_isFill hnone fun v hv => by simp [fillVolume, hv]).symm,
      (sum_eq_zero_of_not_isFill hnone fun v hv => by
        simp [OrderTradeUpdate.fillOutput, hv]).symm⟩
  | update order => trivial
  | database => trivial

/-- An order that a message may come for has not ended. -/
theorem not_closed_of_follows (h : u.Follows (s.history u.orderId)) : ¬ s.Closed u.orderId := by
  rintro ⟨v, hv, hterm⟩
  rcases h with ⟨hnil, -⟩ | ⟨-, hopen, -⟩
  · exact absurd (hnil ▸ hv) List.not_mem_nil
  · exact absurd hterm (by rw [hopen v hv]; exact Bool.false_ne_true)

/-- The fills of the log with one more message. -/
theorem Ledger.lots_append (h : Ledger lot s pnl)
    (hu : u.isFill = true → 0 < u.l ∧ PnL.Lots lot u.l) :
    ∀ v ∈ s.log ++ [u], v.isFill = true → 0 < v.l ∧ PnL.Lots lot v.l := by
  intro v hv
  rcases List.mem_append.mp hv with hmem | hmem
  · exact h.lots v hmem
  · exact List.mem_singleton.mp hmem ▸ hu

/-- A message that does not end its order moves nothing into the books. -/
theorem Ledger.keep (h : Ledger lot s pnl) (hlegal : s.FillStep lot (.message u))
    (hinv : ∀ i, i ≠ 0 → (next step s (.message u)).Inv i) (hterm : u.isTerminal = false) :
    Ledger lot (next step s (.message u)) pnl := by
  obtain ⟨hid, hfollows, -, hlots, -⟩ := hlegal
  have hopen := not_closed_of_follows hfollows
  have hlog : (next step s (.message u)).log = s.log ++ [u] := by
    rw [next, step_message hid hfollows]
  have hpending : (next step s (.message u)).pending = pending { s with log := s.log ++ [u] } :=
    pending_congr hlog
  refine ⟨hinv, hlog ▸ h.lots_append hlots, h.volume_lots, ?_, fun p => ?_⟩
  · rw [hpending, hlog, sum_pending_append hopen hterm, ← add_assoc, h.volume_eq]
    simp
  · rw [hpending, hlog, sum_pending_append hopen hterm, ← add_assoc, h.worth_eq]
    simp

/-- A message that ends its order moves the order's fills into the books. -/
theorem Ledger.close (h : Ledger lot s pnl) (hlegal : s.FillStep lot (.message u))
    (hinv : ∀ i, i ≠ 0 → (next step s (.message u)).Inv i) (hterm : u.isTerminal = true)
    {booked : PnL} (hbooked : PnL.Lots lot booked.volume)
    (hvolume : booked.volume =
      pnl.volume + ((s.history u.orderId ++ [u]).map signedFill).sum)
    (hworth : ∀ p, booked.worth p =
      pnl.worth p + ((s.history u.orderId ++ [u]).map (fillGain p)).sum) :
    Ledger lot (next step s (.message u)) booked := by
  obtain ⟨hid, hfollows, -, hlots, -⟩ := hlegal
  have hopen := not_closed_of_follows hfollows
  have hlog : (next step s (.message u)).log = s.log ++ [u] := by
    rw [next, step_message hid hfollows]
  have hpending : (next step s (.message u)).pending = pending { s with log := s.log ++ [u] } :=
    pending_congr hlog
  refine ⟨hinv, hlog ▸ h.lots_append hlots, hbooked, ?_, fun p => ?_⟩
  · have hsplit := sum_pending_terminal hopen hterm signedFill
    have hvol := h.volume_eq
    rw [hpending, hlog, hvolume]
    simp only [List.map_append, List.sum_append, List.map_cons, List.map_nil, List.sum_cons,
      List.sum_nil] at hsplit ⊢
    linarith
  · have hsplit := sum_pending_terminal hopen hterm (fillGain p)
    have hw := h.worth_eq p
    rw [hpending, hlog, hworth]
    simp only [List.map_append, List.sum_append, List.map_cons, List.map_nil, List.sum_cons,
      List.sum_nil] at hsplit ⊢
    linarith

/-! ## A filled order, booked -/

/-- The fills of an order are one trade of their total quantity at their average price. -/
theorem sum_fills {fills : List OrderTradeUpdate} (hside : ∀ v ∈ fills, v.sign = u.sign) :
    (fills.map signedFill).sum = u.sign * (fills.map fillQuantity).sum ∧
      ∀ p, (fills.map (fillGain p)).sum =
        u.sign * ((fills.map fillQuantity).sum * p -
          (fills.map fun v => v.fillQuantity * v.L).sum) - (fills.map fillFee).sum := by
  induction fills with
  | nil => simp
  | cons v fills ih =>
    obtain ⟨hsigned, hgain⟩ := ih fun w hw => hside w (List.mem_cons_of_mem v hw)
    have hv : v.signedFill = u.sign * v.fillQuantity := by
      rw [signedFill, hside v List.mem_cons_self]
    refine ⟨?_, fun p => ?_⟩
    · rw [List.map_cons, List.sum_cons, hsigned, hv, List.map_cons, List.sum_cons]
      ring
    · simp only [List.map_cons, List.sum_cons, hgain, fillGain, hv]
      ring

/-- The quantity of a filled order is a positive number of lots. -/
theorem lots_sum {fills : List OrderTradeUpdate}
    (h : ∀ v ∈ fills, v.isFill = true → 0 < v.l ∧ PnL.Lots lot v.l) :
    0 ≤ (fills.map fillQuantity).sum ∧ PnL.Lots lot (fills.map fillQuantity).sum := by
  induction fills with
  | nil => exact ⟨le_rfl, 0, by simp⟩
  | cons v fills ih =>
    obtain ⟨hnonneg, hlots⟩ := ih fun w hw => h w (List.mem_cons_of_mem v hw)
    rw [List.map_cons, List.sum_cons]
    cases hv : v.isFill with
    | false =>
      have hzero : v.fillQuantity = 0 := by simp [fillQuantity, hv]
      rw [hzero, zero_add]
      exact ⟨hnonneg, hlots⟩
    | true =>
      have hl : v.fillQuantity = v.l := by simp [fillQuantity, hv]
      obtain ⟨hpos, hlot⟩ := h v List.mem_cons_self hv
      rw [hl]
      exact ⟨by linarith, hlot.add hlots⟩

/-- The order a fill leaves stored: its totals, the price and the side of the message. -/
theorem merged_of_isFill (h : s.Inv u.orderId) (hfollows : u.Follows (s.history u.orderId))
    (hfill : u.isFill = true) :
    (s.merged u).Accounts (s.history u.orderId ++ [u]) ∧ (s.merged u).filledPrice = u.L ∧
      (s.merged u).side = .ofName u.S ∧
      (s.merged u).status =
        if (s.merged u).filledQuantity = u.q then .filled else u.toOrder.status := by
  have hcan : u.X ≠ "CANCELED" := by
    rcases of_decide_eq_true hfill with hX | hX <;> rw [hX] <;> decide
  obtain ⟨status, hstatus, horder⟩ := toOrder_of_isFill hfill
  have hisFill : u.toOrder.isFill = true := by
    rw [horder]
    rcases hstatus with rfl | rfl <;> rfl
  obtain ⟨hprice, hside, hmerged⟩ :=
    mergeUpdate_of_isFill hisFill (s.manager.getOrderById u.toOrder.orderId).2
  refine ⟨(h.merged_accounts rfl hfollows).mpr fun hc => absurd hc hcan, ?_, ?_, ?_⟩
  · exact hprice.trans (by rw [horder]; rfl)
  · exact hside.trans u.toOrder_side
  · rw [← u.toOrder_quantity]
    exact hmerged

/-- The total of an order that a fill was just added to is a positive number of lots. -/
theorem Ledger.lots_total (h : Ledger lot s pnl) (hlegal : s.FillStep lot (.message u))
    (hfill : u.isFill = true) :
    0 < ((s.history u.orderId ++ [u]).map fillQuantity).sum ∧
      PnL.Lots lot ((s.history u.orderId ++ [u]).map fillQuantity).sum := by
  obtain ⟨hnonneg, hlots⟩ := lots_sum fun v (hv : v ∈ s.history u.orderId) =>
    h.lots v (List.mem_filter.mp hv).1
  obtain ⟨hpos, hulots⟩ := hlegal.2.2.2.1 hfill
  have htotal : ((s.history u.orderId ++ [u]).map fillQuantity).sum =
      ((s.history u.orderId).map fillQuantity).sum + u.l := by simp [fillQuantity, hfill]
  rw [htotal]
  exact ⟨by linarith, hlots.add hulots⟩

/-- The quantity a strategy books for a filled order. -/
theorem Ledger.lots_signed (h : Ledger lot s pnl) (hlegal : s.FillStep lot (.message u))
    (hfill : u.isFill = true) {v : ℚ}
    (hv : v = u.sign * ((s.history u.orderId ++ [u]).map fillQuantity).sum) :
    PnL.Lots lot v ∧ v ≠ 0 := by
  obtain ⟨hpos, k, hk⟩ := h.lots_total hlegal hfill
  have hsign : u.sign = 1 ∨ u.sign = -1 := by
    rw [sign]
    cases OrderSide.ofName u.S
    · exact Or.inl rfl
    · exact Or.inr rfl
  rcases hsign with hs | hs
  · refine ⟨⟨k, by rw [hv, hs, hk, one_mul]⟩, ?_⟩
    rw [hv, hs, one_mul]
    exact hpos.ne'
  · refine ⟨⟨-k, by rw [hv, hs, hk]; push_cast; ring⟩, ?_⟩
    rw [hv, hs, neg_one_mul]
    exact neg_ne_zero.mpr hpos.ne'

/-- **A filled order is booked as its fills**, if its last price is their average. -/
theorem Ledger.filled (hlot : PnL.epsilon ≤ lot) (h : Ledger lot s pnl)
    (hlegal : s.FillStep lot (.message u)) (hcond : s.LastPriceIsAverage (.message u))
    (hX : u.X = "FILLED") :
    Ledger lot (next step s (.message u)) (pnl.bookOrder (s.merged u)) := by
  have hinv := h.accounts_step hlegal hcond
  obtain ⟨hid, hfollows, hsides, -, -⟩ := id hlegal
  have hfill : u.isFill = true := by simp [OrderTradeUpdate.isFill, hX]
  obtain ⟨hacc, hprice, hside, hstatus⟩ := merged_of_isFill (h.accounts _ hid) hfollows hfill
  have hbook : pnl.bookOrder (s.merged u) = pnl.updateTrade u.L
      (s.merged u).signedFilledQuantity (s.merged u).fee := by
    have hfilled : (s.merged u).status = .filled := by
      rw [hstatus, u.toOrder_filled hX]
      split_ifs <;> rfl
    rw [PnL.bookOrder, if_pos hfilled, hprice]
  have hquantity : (s.merged u).signedFilledQuantity =
      u.sign * ((s.history u.orderId ++ [u]).map fillQuantity).sum := by
    rw [Order.signedFilledQuantity, hside, hacc.1, sign]
    cases OrderSide.ofName u.S <;> simp
  have hsigns : ∀ v ∈ s.history u.orderId ++ [u], v.sign = u.sign := by
    intro v hv
    rcases List.mem_append.mp hv with hv | hv
    · rw [sign, sign, hsides v hv]
    · rw [List.mem_singleton.mp hv]
  obtain ⟨hsigned, hgain⟩ := sum_fills hsigns
  obtain ⟨hlots, hne⟩ := h.lots_signed hlegal hfill hquantity
  have hvolume : (pnl.updateTrade u.L (s.merged u).signedFilledQuantity (s.merged u).fee).volume =
      pnl.volume + (s.merged u).signedFilledQuantity :=
    PnL.volume_updateTrade hlot h.volume_lots hlots hne
  refine h.close hlegal hinv (by simp [isTerminal, hX]) ?_ ?_ fun p => ?_
  · rw [hbook, hvolume]
    exact h.volume_lots.add hlots
  · rw [hbook, hvolume, hquantity, hsigned]
  · rw [hbook, PnL.worth_updateTrade hlot h.volume_lots hlots hne, hgain, hcond.1 hX, hquantity,
      hacc.2.1]
    ring

/-- An order that is not filled is not booked. -/
theorem bookOrder_of_ne {order : Order} (h : order.status ≠ .filled) :
    pnl.bookOrder order = pnl := if_neg h

/-- A message that is no fill is passed on with its own status. -/
theorem merged_of_not_isFill {u : OrderTradeUpdate} (h : u.isFill = false) :
    s.merged u = u.toOrder :=
  handleUpdateOrder_of_not_isFill _ (accounts_of_not_isFill [] h).2

/-- **A cancellation** closes an order that has nothing to book. -/
theorem Ledger.canceled (h : Ledger lot s pnl) {u : OrderTradeUpdate}
    (hlegal : s.FillStep lot (.message u)) (hcond : s.LastPriceIsAverage (.message u))
    (hX : u.X = "CANCELED") :
    Ledger lot (next OrderFlow.step s (.message u)) (pnl.bookOrder (s.merged u)) := by
  have hfill : u.isFill = false := by simp [OrderTradeUpdate.isFill, hX]
  have hnone : ∀ v ∈ s.history u.orderId ++ [u], v.isFill = false := by
    intro v hv
    rcases List.mem_append.mp hv with hv | hv
    · exact hcond.2 hX v hv
    · exact List.mem_singleton.mp hv ▸ hfill
  have hstatus : (s.merged u).status ≠ .filled := by
    rw [merged_of_not_isFill hfill, u.toOrder_canceled hX]
    exact OrderStatus.noConfusion
  rw [bookOrder_of_ne hstatus]
  refine h.close hlegal (h.accounts_step hlegal hcond) (by simp [isTerminal, hX]) h.volume_lots ?_
    fun p => ?_
  · rw [sum_eq_zero_of_not_isFill hnone fun v => signedFill_of_not_isFill, add_zero]
  · rw [sum_eq_zero_of_not_isFill hnone fun v hv => fillGain_of_not_isFill hv p, add_zero]

/-- **The database task** books nothing. -/
theorem Ledger.database (h : Ledger lot s pnl) (hlegal : s.FillStep lot .database)
    (hcond : s.LastPriceIsAverage .database) :
    Ledger lot (next OrderFlow.step s .database)
      (exec PnL.bookOrder pnl (s.step .database).2) := by
  obtain ⟨hlog, hquiet⟩ :
      (next OrderFlow.step s .database).log = s.log ∧ (s.step .database).2 = [] := by
    rw [next, OrderFlow.step]
    split <;> exact ⟨rfl, rfl⟩
  have hpending : (next OrderFlow.step s .database).pending = s.pending := pending_congr hlog
  rw [hquiet]
  refine ⟨h.accounts_step hlegal hcond, hlog ▸ h.lots, h.volume_lots, ?_, fun p => ?_⟩
  · rw [hpending, hlog]
    exact h.volume_eq
  · rw [hpending, hlog]
    exact h.worth_eq p

/-! ## Every run -/

/-- **One step keeps the ledger.** -/
theorem Ledger.step (hlot : PnL.epsilon ≤ lot) (h : Ledger lot s pnl) {e : OrderEvent}
    (hlegal : s.FillStep lot e) (hcond : s.LastPriceIsAverage e) :
    Ledger lot (next OrderFlow.step s e) (exec PnL.bookOrder pnl (s.step e).2) := by
  cases e with
  | update order => exact absurd hlegal not_false
  | database => exact h.database hlegal hcond
  | message u =>
    have hinv := h.accounts_step hlegal hcond
    obtain ⟨hid, hfollows, -, -, hopen⟩ := id hlegal
    have hout : exec PnL.bookOrder pnl (s.step (.message u)).2 = pnl.bookOrder (s.merged u) := by
      rw [step_message hid hfollows]
      rfl
    rw [hout]
    have hX : u.X = "NEW" ∨ u.X = "PARTIALLY_FILLED" ∨ u.X = "FILLED" ∨ u.X = "CANCELED" := by
      rcases hfollows with ⟨-, hX⟩ | ⟨-, -, hX⟩
      · exact Or.inl hX
      · exact Or.inr hX
    rcases hX with hX | hX | hX | hX
    · rw [bookOrder_of_ne]
      · exact h.keep hlegal hinv (by simp [isTerminal, hX])
      · rw [merged_of_not_isFill (by simp [OrderTradeUpdate.isFill, hX]), u.toOrder_new hX]
        exact OrderStatus.noConfusion
    · rw [bookOrder_of_ne]
      · exact h.keep hlegal hinv (by simp [isTerminal, hX])
      · have hfill : u.isFill = true := by simp [OrderTradeUpdate.isFill, hX]
        obtain ⟨hacc, -, -, hstatus⟩ := merged_of_isFill (h.accounts _ hid) hfollows hfill
        rw [hstatus, hacc.1, if_neg (hopen hX), u.toOrder_partiallyFilled hX]
        exact OrderStatus.noConfusion
    · exact h.filled hlot hlegal hcond hX
    · exact h.canceled hlegal hcond hX

/-- With no order half-way, nothing is pending. -/
theorem Ledger.agrees (h : Ledger lot s pnl) (hdone : s.NoneHalfWay) : pnl.Agrees s.log := by
  have hpending : ∀ v ∈ s.pending, v.isFill = false := by
    intro v hv
    obtain ⟨hmem, hopen⟩ := List.mem_filter.mp hv
    by_contra hfill
    exact of_decide_eq_true hopen (hdone v hmem (by simpa using hfill))
  have hgain : ∀ p, (s.log.map (fillGain p)).sum =
      (s.log.map fun u => u.signedFill * (p - u.L)).sum - (s.log.map fillFee).sum := by
    intro p
    induction s.log with
    | nil => simp
    | cons v log ih =>
      simp only [List.map_cons, List.sum_cons, ih, fillGain]
      ring
  refine ⟨?_, fun p => ?_⟩
  · have hvolume := h.volume_eq
    rwa [sum_eq_zero_of_not_isFill hpending fun v => signedFill_of_not_isFill, add_zero] at hvolume
  · have hworth := h.worth_eq p
    rwa [sum_eq_zero_of_not_isFill hpending fun v hv => fillGain_of_not_isFill hv p, add_zero,
      hgain] at hworth

/-- The order updates of a run, as the mean reversion strategy takes them in, each at some time. -/
def meanReversionRun (s : StrategyMeanReversionStateRun) (updates : List (OrderId × Order)) :
    StrategyMeanReversionStateRun :=
  exec (fun s update => (s.handleOrderUpdate update.1 update.2).1) s updates

/-- The order updates of a run, as the market maker takes them in. -/
def marketMakerRun (s : StrategyMarketMakerStateRun) (updates : List Order) :
    StrategyMarketMakerStateRun := exec StrategyMarketMakerStateRun.handleOrderUpdate s updates

/-- Both strategies only book. -/
theorem meanReversionRun_pnl (s : StrategyMeanReversionStateRun)
    (updates : List (OrderId × Order)) :
    (meanReversionRun s updates).pnl = exec PnL.bookOrder s.pnl (updates.map Prod.snd) := by
  rw [meanReversionRun]
  induction updates generalizing s with
  | nil => rfl
  | cons update updates ih =>
    rw [exec_cons, ih, StrategyMeanReversionStateRun.handleOrderUpdate_pnl]
    rfl

theorem marketMakerRun_pnl (s : StrategyMarketMakerStateRun) (updates : List Order) :
    (marketMakerRun s updates).pnl = exec PnL.bookOrder s.pnl updates := by
  rw [marketMakerRun]
  induction updates generalizing s with
  | nil => rfl
  | cons update updates ih =>
    rw [exec_cons, ih, StrategyMarketMakerStateRun.handleOrderUpdate_pnl]
    rfl

/-- **The profit of the strategies agrees with the fills.**  In every run of fill events whose
filled orders have their last price for their average and whose canceled orders have no fills:
whenever no order is half-way, the position of both strategies is the sum of the fills, and what
they are worth at any mark price is what the fills have gained since, less the fees. -/
theorem strategies_agree_with_fills (hlot : PnL.epsilon ≤ lot) (loaded : OrderMap)
    (es : List OrderEvent)
    (hlegal : Along (next step) (FillStep · lot) { manager := .init loaded } es)
    (hcond : Along (next step) LastPriceIsAverage { manager := .init loaded } es)
    (hdone : (exec (next step) { manager := .init loaded } es).NoneHalfWay)
    (mr : StrategyMeanReversionStateRun) (hmr : mr.pnl = {}) (mm : StrategyMarketMakerStateRun)
    (hmm : mm.pnl = {}) (updates : List (OrderId × Order))
    (hupdates : updates.map Prod.snd = trace step { manager := .init loaded } es) :
    let fills := (exec (next step) { manager := .init loaded } es).log
    (meanReversionRun mr updates).pnl.Agrees fills ∧
      (marketMakerRun mm (updates.map Prod.snd)).pnl.Agrees fills := by
  intro fills
  have hboth : Along (next step) (fun s e => s.FillStep lot e ∧ s.LastPriceIsAverage e)
      { manager := .init loaded } es := along_and.mpr ⟨hlegal, hcond⟩
  have hwatch : Along (watch step PnL.bookOrder)
      (fun p e => p.1.FillStep lot e ∧ p.1.LastPriceIsAverage e)
      (({ manager := .init loaded } : OrderFlow), ({} : PnL)) es :=
    (along_watch _ _ es).mpr hboth
  have hledger := exec_of_invariant (I := fun p : OrderFlow × PnL => Ledger lot p.1 p.2)
    (fun p e hI hP => hI.step hlot hP.1 hP.2) (ledger_init lot loaded) hwatch
  rw [exec_watch] at hledger
  have hagrees := hledger.agrees hdone
  rw [meanReversionRun_pnl, marketMakerRun_pnl, hmr, hmm, hupdates]
  exact ⟨hagrees, hagrees⟩

/-- An order of two, filled in two halves at 100 and at the price given. -/
def twoHalves (lastPrice : ℚ) : List OrderEvent :=
  [.message { orderId := 7, S := "BUY", q := 2, X := "NEW" },
    .message
      { orderId := 7, S := "BUY", q := 2, X := "PARTIALLY_FILLED", l := 1, L := 100, n := 1 },
    .message { orderId := 7, S := "BUY", q := 2, X := "FILLED", l := 1, L := lastPrice, n := 1 }]

/-- The instrument of the runs below. -/
def btcusdt : Instrument := .create .binance .perpetual "BTCUSDT" "BTCUSDT" 3 1

/-- The updates the two halves lead to, all taken in at one time. -/
def twoHalvesUpdates (lastPrice : ℚ) : List (OrderId × Order) :=
  (trace step { manager := .init ∅ } (twoHalves lastPrice)).map fun order => (1, order)

theorem twoHalves_legal {lastPrice : ℚ} (h : lastPrice = 100 ∨ lastPrice = 102) :
    Along (next step) (FillStep · 1) { manager := .init ∅ } (twoHalves lastPrice) := by
  refine ⟨?_, ?_, ?_, trivial⟩
  · exact ⟨by decide, by decide, by decide, fun h => absurd h (by decide), by decide⟩
  · exact ⟨by decide, by decide +kernel, by decide +kernel,
      fun _ => ⟨by norm_num, 1, by norm_num⟩, fun _ => by decide +kernel⟩
  · rcases h with rfl | rfl <;>
      exact ⟨by decide, by decide +kernel, by decide +kernel,
        fun _ => ⟨by norm_num, 1, by norm_num⟩, fun h => absurd h (by decide)⟩

/-- Both halves at one price: the strategies agree with the fills. -/
theorem twoHalves_agree :
    let fills := (exec (next step) { manager := .init ∅ } (twoHalves 100)).log
    (meanReversionRun { instrument := btcusdt } (twoHalvesUpdates 100)).pnl.Agrees fills ∧
      (marketMakerRun {} ((twoHalvesUpdates 100).map Prod.snd)).pnl.Agrees fills :=
  strategies_agree_with_fills (by norm_num [PnL.epsilon] : PnL.epsilon ≤ 1) ∅ (twoHalves 100)
    (twoHalves_legal (Or.inl rfl))
    (by decide +kernel) (by decide +kernel)
    { instrument := btcusdt } rfl {} rfl (twoHalvesUpdates 100) (by simp [twoHalvesUpdates])

/-- **The second half dearer: all of the order is booked at its price**, by both strategies. -/
theorem twoHalves_booked_at_last :
    let s := exec (next step) { manager := .init ∅ } (twoHalves 102)
    Along (next step) (FillStep · 1) { manager := .init ∅ } (twoHalves 102) ∧ s.NoneHalfWay ∧
      ¬ (meanReversionRun { instrument := btcusdt } (twoHalvesUpdates 102)).pnl.Agrees s.log ∧
      ¬ (marketMakerRun {} ((twoHalvesUpdates 102).map Prod.snd)).pnl.Agrees s.log := by
  refine ⟨twoHalves_legal (Or.inr rfl), by decide +kernel, fun h => ?_, fun h => ?_⟩
  · exact absurd (h.2 0) (by decide +kernel)
  · exact absurd (h.2 0) (by decide +kernel)

end OrderFlow

end TradingEngine
