import Mathlib.Algebra.Order.Ring.Abs
import TradingEngine.Pnl.Pnl

/-!
# Pnl/Conservation — no branch of `update_trade` makes or loses money

The worth of a `PnL` at a mark price `p` is `realized + volume * (p - avg_price)`.  Each of the four
branches that book a trade adds exactly `volume * (p - price) - fee` to it, for every `p`, provided
volumes are whole lots of at least `epsilon`: then the tolerance tests decide exactly
(`lot_abs_lt`). The run theorem is the sum of the steps.
-/

namespace TradingEngine.PnL

/-- What the position and the realised profit are worth at mark price `p`. -/
def worth (s : PnL) (p : ℚ) : ℚ := s.realized + s.volume * (p - s.avgPrice)

/-- A whole number of lots. -/
def Lots (lot v : ℚ) : Prop := ∃ k : ℤ, v = k * lot

theorem Lots.add {lot v v' : ℚ} (h : Lots lot v) (h' : Lots lot v') : Lots lot (v + v') := by
  obtain ⟨k, rfl⟩ := h
  obtain ⟨k', rfl⟩ := h'
  exact ⟨k + k', by push_cast; ring⟩

/-- **The tolerance decides exactly on whole lots.** -/
theorem Lots.abs_lt_iff {lot v : ℚ} (hlot : epsilon ≤ lot) (h : Lots lot v) :
    |v| < epsilon ↔ v = 0 := by
  have heps : (0 : ℚ) < epsilon := by norm_num [epsilon]
  constructor
  · intro hv
    obtain ⟨k, rfl⟩ := h
    by_contra hne
    have hk : k ≠ 0 := by
      rintro rfl
      exact hne (by simp)
    have hk1 : (1 : ℚ) ≤ |(k : ℚ)| := by exact_mod_cast Int.one_le_abs hk
    have hpos : 0 < lot := lt_of_lt_of_le heps hlot
    rw [abs_mul, abs_of_pos hpos] at hv
    nlinarith
  · rintro rfl
    rwa [abs_zero]

/-! ## One trade -/

variable {s : PnL} {px vol cost : ℚ}

/-- **A trade of whole lots moves the position by its volume.** -/
theorem volume_updateTrade {lot : ℚ} (hlot : epsilon ≤ lot) (hs : Lots lot s.volume)
    (hv : Lots lot vol) (hv0 : vol ≠ 0) :
    (s.updateTrade px vol cost).volume = s.volume + vol := by
  rw [updateTrade, if_neg (mt (hv.abs_lt_iff hlot).mp hv0)]
  split_ifs with hclose
  · exact (((hs.add hv).abs_lt_iff hlot).mp hclose).symm
  · rfl
  · rfl
  · rfl

/-- A partial close pays the profit of the part closed. -/
theorem sign_mul_abs (hneg : ¬ 0 < s.volume * vol) (hle : ¬ |s.volume| < |vol|)
    (hv0 : vol ≠ 0) : (if 0 < s.volume then (1 : ℚ) else -1) * |vol| = -vol := by
  have hpos : 0 < |vol| := abs_pos.mpr hv0
  rcases lt_trichotomy s.volume 0 with h | h | h
  · have hvol : 0 ≤ vol := by
      by_contra hc
      exact hneg (mul_pos_of_neg_of_neg h (not_le.mp hc))
    rw [if_neg (not_lt.mpr h.le), abs_of_nonneg hvol]
    ring
  · exact absurd (by rwa [h, abs_zero]) hle
  · have hvol : vol ≤ 0 := by
      by_contra hc
      exact hneg (mul_pos h (not_le.mp hc))
    rw [if_pos h, abs_of_nonpos hvol]
    ring

/-- **A trade of whole lots adds its own profit to the worth, at every mark price.** -/
theorem worth_updateTrade {lot : ℚ} (hlot : epsilon ≤ lot) (hs : Lots lot s.volume)
    (hv : Lots lot vol) (hv0 : vol ≠ 0) (p : ℚ) :
    (s.updateTrade px vol cost).worth p = s.worth p + vol * (p - px) - cost := by
  rw [updateTrade, if_neg (mt (hv.abs_lt_iff hlot).mp hv0)]
  split_ifs with hclose hinc hflip
  · have hzero : s.volume + vol = 0 := ((hs.add hv).abs_lt_iff hlot).mp hclose
    have hvol : vol = -s.volume := by linarith
    simp only [worth, markUnrealized, closeAll, updateRealizedProfitLoss_realized, hvol]
    ring
  · -- the average price is defined by the total cost, which the division gives back
    have hne : s.volume + vol ≠ 0 := mt ((hs.add hv).abs_lt_iff hlot).mpr hclose
    have hcost : (s.volume + vol) *
        ((s.avgPrice * s.volume + px * vol + cost) / (s.volume + vol)) =
          s.avgPrice * s.volume + px * vol + cost := mul_div_cancel₀ _ hne
    simp only [worth, markUnrealized, increase, mul_sub, hcost]
    ring
  · simp only [worth, markUnrealized, flip, updateRealizedProfitLoss_realized]
    ring
  · simp only [worth, markUnrealized, closePart, updateRealizedProfitLoss_realized,
      updateRealizedProfitLoss_avgPrice, sign_mul_abs hinc hflip hv0]
    ring

/-! ## What holds at every point -/

/-- The realised profit is split by sign, and the unrealised one is up to date. -/
structure Booked (s : PnL) : Prop where
  realized_eq : s.realized = s.realizedProfit + s.realizedLoss
  profit_nonneg : 0 ≤ s.realizedProfit
  loss_nonpos : s.realizedLoss ≤ 0
  unrealized_eq : s.unrealized = s.volume * (s.currentPrice - s.avgPrice)

theorem booked_init : Booked {} := ⟨by norm_num, le_rfl, le_rfl, by norm_num⟩

theorem Booked.updateCurrentPrice (h : s.Booked) (price : ℚ) :
    (s.updateCurrentPrice price).Booked :=
  ⟨h.realized_eq, h.profit_nonneg, h.loss_nonpos, rfl⟩

/-- The split by sign survives `update_realized_profit_loss`. -/
theorem Booked.split (h : s.Booked) (v : ℚ) :
    let s' := s.updateRealizedProfitLoss v
    s'.realized = s'.realizedProfit + s'.realizedLoss ∧ 0 ≤ s'.realizedProfit ∧
      s'.realizedLoss ≤ 0 := by
  have h1 := h.realized_eq
  have h2 := h.profit_nonneg
  have h3 := h.loss_nonpos
  rw [updateRealizedProfitLoss]
  split
  · exact ⟨by simp only [h1]; ring, by simp only; linarith, h3⟩
  · exact ⟨by simp only [h1]; ring, h2, by simp only; linarith⟩

theorem Booked.updateTrade (h : s.Booked) (price volume fee : ℚ) :
    (s.updateTrade price volume fee).Booked := by
  rw [PnL.updateTrade]
  split_ifs
  · exact h
  · obtain ⟨h1, h2, h3⟩ := h.split (s.volume * (price - s.avgPrice) - fee)
    exact ⟨h1, h2, h3, rfl⟩
  · exact ⟨h.realized_eq, h.profit_nonneg, h.loss_nonpos, rfl⟩
  · obtain ⟨h1, h2, h3⟩ := h.split (s.volume * (price - s.avgPrice) - fee)
    exact ⟨h1, h2, h3, rfl⟩
  · obtain ⟨h1, h2, h3⟩ :=
      h.split ((if 0 < s.volume then 1 else -1) * |volume| * (price - s.avgPrice) - fee)
    exact ⟨h1, h2, h3, rfl⟩

/-! ## Every sequence of calls -/

/-- A call on a `PnL`. -/
inductive Call
  | trade (price volume fee : ℚ)
  | mark (price : ℚ)

/-- The `PnL` after a call. -/
def call (s : PnL) : Call → PnL
  | .trade price volume fee => s.updateTrade price volume fee
  | .mark price => s.updateCurrentPrice price

/-- The volume a call trades. -/
def Call.volume : Call → ℚ
  | .trade _ volume _ => volume
  | .mark _ => 0

/-- The fee a call pays. -/
def Call.fee : Call → ℚ
  | .trade _ _ fee => fee
  | .mark _ => 0

/-- What the traded volume gains from the traded price to `p`. -/
def Call.gain (p : ℚ) : Call → ℚ
  | .trade price volume _ => volume * (p - price)
  | .mark _ => 0

/-- The mark price after a call, given the one before. -/
def Call.markAfter (price : ℚ) : Call → ℚ
  | .trade _ _ _ => price
  | .mark price' => price'

/-- The price of the last mark, 0 before the first. -/
def lastMark (cs : List Call) : ℚ := cs.foldl Call.markAfter 0

/-- A trade of a nonzero number of whole lots. -/
def Call.Ok (lot : ℚ) : Call → Prop
  | .trade _ volume _ => Lots lot volume ∧ volume ≠ 0
  | .mark _ => True

theorem booked_call (h : s.Booked) (c : Call) : (s.call c).Booked := by
  cases c with
  | trade price volume fee => exact h.updateTrade price volume fee
  | mark price => exact h.updateCurrentPrice price

/-- A trade leaves the mark price alone. -/
theorem currentPrice_updateTrade (price volume fee : ℚ) :
    (s.updateTrade price volume fee).currentPrice = s.currentPrice := by
  rw [updateTrade]
  split_ifs
  · rfl
  · exact updateRealizedProfitLoss_currentPrice _ _
  · rfl
  · exact updateRealizedProfitLoss_currentPrice _ _
  · exact updateRealizedProfitLoss_currentPrice _ _

theorem currentPrice_call (s : PnL) (c : Call) :
    (s.call c).currentPrice = c.markAfter s.currentPrice := by
  cases c with
  | trade price volume fee => exact currentPrice_updateTrade price volume fee
  | mark price => rfl

/-- **The mark price is the price of the last mark**, through all the trades since. -/
theorem currentPrice_exec (cs : List Call) (s : PnL) :
    (Run.exec call s cs).currentPrice = cs.foldl Call.markAfter s.currentPrice := by
  induction cs generalizing s with
  | nil => rfl
  | cons c cs ih => rw [Run.exec_cons, ih, currentPrice_call, List.foldl_cons]

/-- **One call**: the position moves by the volume traded, the worth by its gain less the fee. -/
theorem call_sums {lot : ℚ} (hlot : epsilon ≤ lot) (hs : Lots lot s.volume) {c : Call}
    (hc : c.Ok lot) :
    (s.call c).volume = s.volume + c.volume ∧ Lots lot (s.call c).volume ∧
      ∀ p, (s.call c).worth p = s.worth p + c.gain p - c.fee := by
  cases c with
  | trade price volume fee =>
    have hvol : (s.updateTrade price volume fee).volume = s.volume + volume :=
      volume_updateTrade hlot hs hc.1 hc.2
    refine ⟨hvol, ?_, worth_updateTrade hlot hs hc.1 hc.2⟩
    rw [call, hvol]
    exact hs.add hc.1
  | mark price =>
    refine ⟨(add_zero _).symm, hs, fun p => ?_⟩
    simp [worth, call, updateCurrentPrice, Call.gain, Call.fee]

/-- **A run adds up its calls**, from any position of whole lots. -/
theorem exec_sums {lot : ℚ} (hlot : epsilon ≤ lot) (cs : List Call) (hcs : ∀ c ∈ cs, c.Ok lot) :
    ∀ s : PnL, Lots lot s.volume →
      (Run.exec call s cs).volume = s.volume + (cs.map Call.volume).sum ∧
        ∀ p, (Run.exec call s cs).worth p =
          s.worth p + (cs.map (Call.gain p)).sum - (cs.map Call.fee).sum := by
  induction cs with
  | nil => exact fun s _ => ⟨by simp, fun p => by simp⟩
  | cons c cs ih =>
    intro s hs
    obtain ⟨hvol, hlots, hworth⟩ := call_sums hlot hs (hcs c List.mem_cons_self)
    obtain ⟨hvol', hworth'⟩ := ih (fun c' hc' => hcs c' (List.mem_cons_of_mem _ hc')) _ hlots
    refine ⟨?_, fun p => ?_⟩
    · rw [Run.exec_cons, hvol', hvol, List.map_cons, List.sum_cons, add_assoc]
    · rw [Run.exec_cons, hworth', hworth, List.map_cons, List.sum_cons, List.map_cons,
      List.sum_cons]
      ring

/-- **Conservation.**  After every sequence of trades of whole lots and price changes on a fresh
`PnL`, the position is the volume traded, the worth at any mark price is what the trades have gained
since less the fees, and the books are in order: the unrealised profit is taken at the last mark. -/
theorem trades_conserve {lot : ℚ} (hlot : epsilon ≤ lot) (cs : List Call)
    (hcs : ∀ c ∈ cs, c.Ok lot) :
    let s := Run.exec call ({} : PnL) cs
    s.volume = (cs.map Call.volume).sum ∧
      (∀ p, s.realized + s.volume * (p - s.avgPrice) =
        (cs.map (Call.gain p)).sum - (cs.map Call.fee).sum) ∧
      s.realized = s.realizedProfit + s.realizedLoss ∧ 0 ≤ s.realizedProfit ∧ s.realizedLoss ≤ 0 ∧
      s.unrealized = s.volume * (s.currentPrice - s.avgPrice) ∧ s.currentPrice = lastMark cs := by
  intro s
  obtain ⟨hvol, hworth⟩ := exec_sums hlot cs hcs {} ⟨0, by simp⟩
  have hbooked : s.Booked :=
    Run.exec_of_forall (I := Booked) (fun _ c h => booked_call h c) booked_init cs
  refine ⟨hvol.trans (zero_add _), fun p => ?_, hbooked.realized_eq, hbooked.profit_nonneg,
    hbooked.loss_nonpos, hbooked.unrealized_eq, currentPrice_exec cs {}⟩
  have hzero : ({} : PnL).worth p = 0 := by simp [worth]
  have := hworth p
  rw [hzero, zero_add] at this
  exact this

/-- Buy one, buy one more, sell three: increase and flip. -/
def threeTrades : List Call :=
  [.trade 100 1 (1 / 10), .trade 102 1 (1 / 10), .mark 103, .trade 104 (-3) (1 / 5)]

theorem threeTrades_ok : ∀ c ∈ threeTrades, c.Ok 1 := by
  intro c hc
  simp only [threeTrades, List.mem_cons, List.not_mem_nil, or_false] at hc
  rcases hc with rfl | rfl | rfl | rfl
  · exact ⟨⟨1, by norm_num⟩, by norm_num⟩
  · exact ⟨⟨1, by norm_num⟩, by norm_num⟩
  · trivial
  · exact ⟨⟨-3, by norm_num⟩, by norm_num⟩

theorem threeTrades_conserve :
    epsilon ≤ 1 ∧ (∀ c ∈ threeTrades, c.Ok 1) ∧
      (Run.exec call ({} : PnL) threeTrades).volume = -1 ∧
      (Run.exec call ({} : PnL) threeTrades).currentPrice = 103 := by
  obtain ⟨hvol, -, -, -, -, -, hmark⟩ :=
    trades_conserve (by norm_num [epsilon]) threeTrades threeTrades_ok
  refine ⟨by norm_num [epsilon], threeTrades_ok, hvol.trans ?_, hmark.trans rfl⟩
  norm_num [threeTrades, Call.volume]

end TradingEngine.PnL
