import Mathlib.Data.Rat.Sqrt
import TradingEngine.Machinery.Run
import TradingEngine.MeanReversion.StateRun

/-!
# MeanReversion/OrderCycle — the orders of a cycle, at the strategy and on the exchange

`OrderCycle` is the strategy next to what the exchange makes of its requests: the live orders, the
net filled position, and the side of the initial order filled in the current cycle.  A cycle runs
through five phases,

    idle ──place──▸ opening ──fill──▸ opened ──place──▸ hedging ──fill or cancel──▸ hedged ──▸ idle

and at most one order is live in each (`Phase`).  Snapshots and order updates may come in any order.
Four slips of the strategy leave the phases; `orderCycle_inOrder` says that on the runs that avoid
them every order placed has the right side and the position stays within the volume.
-/

namespace TradingEngine

namespace OrderSide

/-- A quantity with the sign of a side. -/
def signed : OrderSide → ℚ → ℚ
  | .buy, quantity => quantity
  | .sell, quantity => -quantity

variable (side : OrderSide) (p q : ℚ)

theorem abs_signed : |side.signed q| = |q| := by
  cases side with
  | buy => rfl
  | sell => exact abs_neg q

@[simp] theorem signed_zero : side.signed 0 = 0 := by
  cases side with
  | buy => rfl
  | sell => exact neg_zero

theorem signed_add : side.signed p + side.signed q = side.signed (p + q) := by
  cases side with
  | buy => rfl
  | sell => exact (neg_add p q).symm

theorem signed_opposite : side.opposite.signed q = side.signed (-q) := by
  cases side with
  | buy => rfl
  | sell => exact (neg_neg q).symm

@[simp] theorem opposite_opposite : side.opposite.opposite = side := by
  cases side <;> rfl

end OrderSide

/-- Which of the two orders of a cycle an order is. -/
inductive OrderRole
  | initial
  | hedge
  deriving DecidableEq, Repr

/-- The order that is placed in a phase of the plan. -/
def SpreadCaptureStatus.role : SpreadCaptureStatus → OrderRole
  | .placingInitialOrder => .initial
  | .none | .placingHedgeOrder | .waitingForHedgeOrderFilled | .stopLoss => .hedge

/-- An order that has been placed and not been filled, canceled or rejected yet. -/
structure LiveOrder where
  order : Order
  role : OrderRole
  acked : Bool := false
  filled : ℚ := 0
  deriving DecidableEq

namespace LiveOrder

variable (lo : LiveOrder) (order : Order)

/-- The life of an order: `NEW` or `REJECTED` first, then fills that add up, then `FILLED` with the
whole quantity or `CANCELED`. -/
def Next (filled : ℚ) : OrderStatus → Prop
  | .new | .rejected => lo.acked = false
  | .partiallyFilled => lo.acked = true ∧ lo.filled < filled ∧ filled < lo.order.quantity
  | .filled => lo.acked = true ∧ filled = lo.order.quantity
  | .canceled => lo.acked = true
  | .notAvailable => False

instance (filled : ℚ) : ∀ status, Decidable (lo.Next filled status)
  | .new | .rejected => inferInstanceAs (Decidable (lo.acked = false))
  | .partiallyFilled =>
    inferInstanceAs (Decidable (lo.acked = true ∧ lo.filled < filled ∧ filled < lo.order.quantity))
  | .filled => inferInstanceAs (Decidable (lo.acked = true ∧ filled = lo.order.quantity))
  | .canceled => inferInstanceAs (Decidable (lo.acked = true))
  | .notAvailable => inferInstanceAs (Decidable False)

/-- A report that the order can get next. -/
def Allows : Prop :=
  lo.order.orderId = order.orderId ∧ lo.order.side = order.side ∧
    lo.Next order.filledQuantity order.status

instance : Decidable (lo.Allows order) := inferInstanceAs (Decidable (_ ∧ _ ∧ _))

/-- The order after a report on it, if it is still live. -/
def after : Option LiveOrder :=
  match order.status with
  | .new => some { lo with acked := true }
  | .partiallyFilled => some { lo with filled := order.filledQuantity }
  | .filled | .canceled | .rejected => none
  | .notAvailable => some lo

/-- What a report adds to the fills of the order. -/
def fill : ℚ := if order.isFill then order.filledQuantity - lo.filled else 0

/-- The order is for the whole volume; fills come after the order is acknowledged. -/
structure Fits (volume : ℚ) : Prop where
  quantity_eq : lo.order.quantity = volume
  orderId_ne : lo.order.orderId ≠ 0
  filled_nonneg : 0 ≤ lo.filled
  filled_le : lo.filled ≤ volume
  filled_eq : lo.acked = false → lo.filled = 0

variable {lo order} {volume : ℚ}

theorem Fits.acked (h : lo.Fits volume) : ({ lo with acked := true } : LiveOrder).Fits volume where
  quantity_eq := h.quantity_eq
  orderId_ne := h.orderId_ne
  filled_nonneg := h.filled_nonneg
  filled_le := h.filled_le
  filled_eq hacked := by cases hacked

theorem Fits.partlyFilled (h : lo.Fits volume) {filled : ℚ}
    (hlife : lo.acked = true ∧ lo.filled < filled ∧ filled < lo.order.quantity) :
    ({ lo with filled := filled } : LiveOrder).Fits volume where
  quantity_eq := h.quantity_eq
  orderId_ne := h.orderId_ne
  filled_nonneg := h.filled_nonneg.trans hlife.2.1.le
  filled_le := hlife.2.2.le.trans_eq h.quantity_eq
  filled_eq hacked := by cases hlife.1.symm.trans hacked

end LiveOrder

/-- The strategy and the exchange; `filledInitial` is the side of the initial order filled in the
current cycle. -/
structure OrderCycle where
  strategy : StrategyMeanReversionStateRun
  live : List LiveOrder := []
  position : ℚ := 0
  filledInitial : Option OrderSide := none

/-- A call of one of the two handlers, with the time at which ids are taken. -/
inductive CycleEvent
  | snapshot (now : OrderId) (snapshot : OrderBookSnapShot)
  | update (now : OrderId) (order : Order)

namespace OrderCycle

open StrategyMeanReversionStateRun

/-- A strategy that begins with no order live. -/
def start (strategy : StrategyMeanReversionStateRun) : OrderCycle where
  strategy := strategy.begin

variable (s : OrderCycle)

/-- The plan of the strategy. -/
def plan : SpreadCaptureConfig := s.strategy.spreadCaptures.spreadCapture

/-- The live order a report is about. -/
def reported (order : Order) : Option LiveOrder :=
  s.live.find? fun lo => lo.order.orderId = order.orderId

/-- What a report says about the exchange. -/
def report (order : Order) : OrderCycle :=
  match s.reported order with
  | none => s
  | some lo =>
    { s with
      live := s.live.filterMap fun lo =>
        if lo.order.orderId = order.orderId then lo.after order else some lo
      position := s.position + lo.order.side.signed (lo.fill order)
      filledInitial :=
        if order.status = .filled ∧ lo.role = .initial then some lo.order.side
        else s.filledInitial }

/-- The requests of a handler reach the exchange.  A new initial order begins a cycle. -/
def carryOut (result : StrategyMeanReversionStateRun × List OrderRequest) (role : OrderRole) :
    OrderCycle × List LiveOrder :=
  let placed := (placements result.2).map fun order => { order := order, role := role : LiveOrder }
  ({ s with
      strategy := result.1
      live := s.live ++ placed
      filledInitial := if role = .initial ∧ placed ≠ [] then none else s.filledInitial },
    placed)

/-- A rejected order is replaced by one of its own role. -/
def replacementRole (order : Order) : OrderRole :=
  match s.reported order with
  | some lo => if order.status = .rejected then lo.role else s.plan.status.role
  | none => s.plan.status.role

/-- A handler runs; the orders it places are the output. -/
def step (sqrt : ℚ → ℚ) : CycleEvent → OrderCycle × List LiveOrder
  | .snapshot now snapshot =>
    let result := s.strategy.handleOrderBookSnapshot sqrt now snapshot
    s.carryOut result result.1.status.role
  | .update now order =>
    (s.report order).carryOut (s.strategy.handleOrderUpdate now order) (s.replacementRole order)

/-- Ids are not zero, and a report follows the life of a live order. -/
def Legal : CycleEvent → Prop
  | .snapshot now _ => now ≠ 0
  | .update now order => now ≠ 0 ∧ ∃ lo ∈ s.live, lo.Allows order

instance : ∀ e, Decidable (s.Legal e)
  | .snapshot now _ => inferInstanceAs (Decidable (now ≠ 0))
  | .update _ _ => inferInstanceAs (Decidable (_ ∧ _))

/-- The side an order must have when it is placed: the planned one, or the one that closes the
filled initial order. -/
def RightSide (lo : LiveOrder) : Prop :=
  (lo.role = .initial → lo.order.side = s.plan.initialOrder.side) ∧
    (lo.role = .hedge → s.filledInitial = some lo.order.side.opposite)

instance (lo : LiveOrder) : Decidable (s.RightSide lo) := inferInstanceAs (Decidable (_ ∧ _))

/-- The live orders in a role. -/
def liveIn (role : OrderRole) : List LiveOrder := s.live.filter fun lo => lo.role = role

/-- What is claimed of a step and of the state it leads to: every order placed has the right side,
at most one order of each role is live, and the position is within the volume. -/
def InOrder (sqrt : ℚ → ℚ) (e : CycleEvent) : Prop :=
  (∀ lo ∈ (s.step sqrt e).2, (s.step sqrt e).1.RightSide lo) ∧
    ((s.step sqrt e).1.liveIn .initial).length ≤ 1 ∧
    ((s.step sqrt e).1.liveIn .hedge).length ≤ 1 ∧
    |(s.step sqrt e).1.position| ≤ s.strategy.volume

instance (sqrt : ℚ → ℚ) (e : CycleEvent) : Decidable (s.InOrder sqrt e) :=
  inferInstanceAs (Decidable (_ ∧ _ ∧ _ ∧ _))

/-- The mean of the prices, with a snapshot taken in. -/
def nextMean (snapshot : OrderBookSnapShot) : ℚ :=
  (s.strategy.spreadCaptures.nextEstimator snapshot).mean

/-- The steps that avoid the slips of the strategy:

* the first initial order of a cycle is always bought, so the plan must be to buy;
* the hedge order is placed again by every snapshot that does not find it `NEW`;
* a rejected initial order is placed again on its own side, which the plan may have left;
* a canceled order is placed again with the whole volume, whatever of it was filled. -/
def Orderly : CycleEvent → Prop
  | .snapshot _ snapshot =>
    snapshot.instrument = some s.strategy.instrument →
      (s.plan.status = .none → s.nextMean snapshot ≠ 0 →
        snapshot.getMidPrice ≤ s.nextMean snapshot) ∧
      (s.plan.status = .placingHedgeOrder →
        s.nextMean snapshot ≠ 0 ∧ s.plan.hedgeOrder.status = .new)
  | .update _ order =>
    (order.status = .rejected → s.plan.status = .placingInitialOrder →
      order.side = s.plan.initialOrder.side) ∧
    (order.status = .canceled → s.plan.status = .placingInitialOrder ∨ s.plan.status = .stopLoss →
      ∀ lo ∈ s.reported order, lo.filled = 0)

instance : ∀ e, Decidable (s.Orderly e)
  | .snapshot _ _ => inferInstanceAs (Decidable (_ → _))
  | .update _ _ => inferInstanceAs (Decidable (_ ∧ _))

/-! ## The phases of a cycle -/

/-- Nothing is live and nothing is held; the strategy has forgotten its initial order, or does so on
the next snapshot because there are no prices yet. -/
structure Idle : Prop where
  status_eq : s.plan.status = .none
  live_eq : s.live = []
  position_eq : s.position = 0
  forgotten : s.strategy.initialOrder.isNull ∨
    s.strategy.spreadCaptures.volatilityEstimator.prices = []
  unfilled : s.plan.initialOrder.status ≠ .filled

/-- The initial order is live, and what it has filled is held. -/
structure Opening (lo : LiveOrder) : Prop where
  status_eq : s.plan.status = .placingInitialOrder
  live_eq : s.live = [lo]
  role_eq : lo.role = .initial
  fits : lo.Fits s.strategy.volume
  position_eq : s.position = lo.order.side.signed lo.filled
  orderId_ne : s.strategy.initialOrder.orderId ≠ 0
  unfilled : s.plan.initialOrder.status ≠ .filled

/-- The initial order is filled, and the next snapshot with a mean hedges it. -/
structure Opened (side : OrderSide) : Prop where
  status_eq : s.plan.status = .placingInitialOrder
  live_eq : s.live = []
  position_eq : s.position = side.signed s.strategy.volume
  orderId_ne : s.strategy.initialOrder.orderId ≠ 0
  filled : s.plan.initialOrder.status = .filled
  side_eq : s.plan.initialOrder.side = side
  filledInitial_eq : s.filledInitial = some side

/-- The hedge order is live, and what it has not filled is held. -/
structure Hedging (side : OrderSide) (lo : LiveOrder) : Prop where
  isHedging : s.plan.status.isHedging
  live_eq : s.live = [lo]
  role_eq : lo.role = .hedge
  fits : lo.Fits s.strategy.volume
  side_eq : lo.order.side = side.opposite
  position_eq : s.position = side.signed (s.strategy.volume - lo.filled)
  filledInitial_eq : s.filledInitial = some side
  unfilled : s.plan.hedgeOrder.status ≠ .filled

/-- The hedge order is gone; if it was filled, nothing is held. -/
structure Hedged (side : OrderSide) (rest : ℚ) : Prop where
  isHedging : s.plan.status.isHedging
  live_eq : s.live = []
  position_eq : s.position = side.signed rest
  rest_nonneg : 0 ≤ rest
  rest_le : rest ≤ s.strategy.volume
  rest_eq : s.plan.hedgeOrder.status = .filled → rest = 0

/-- **The invariant**: the cycle is in one of its phases. -/
inductive Phase : Prop
  | idle (h : s.Idle)
  | opening (lo : LiveOrder) (h : s.Opening lo)
  | opened (side : OrderSide) (h : s.Opened side)
  | hedging (side : OrderSide) (lo : LiveOrder) (h : s.Hedging side lo)
  | hedged (side : OrderSide) (rest : ℚ) (h : s.Hedged side rest)

variable {s} {lo : LiveOrder} {order : Order}

/-- In every phase the position is within the volume. -/
theorem Phase.position_le (h : s.Phase) (hvolume : 0 ≤ s.strategy.volume) :
    |s.position| ≤ s.strategy.volume := by
  cases h with
  | idle h =>
    rw [h.position_eq, abs_zero]
    exact hvolume
  | opening lo h =>
    rw [h.position_eq, OrderSide.abs_signed, abs_of_nonneg h.fits.filled_nonneg]
    exact h.fits.filled_le
  | opened side h => rw [h.position_eq, OrderSide.abs_signed, abs_of_nonneg hvolume]
  | hedging side lo h =>
    rw [h.position_eq, OrderSide.abs_signed, abs_of_nonneg (sub_nonneg.mpr h.fits.filled_le)]
    exact sub_le_self _ h.fits.filled_nonneg
  | hedged side rest h =>
    rw [h.position_eq, OrderSide.abs_signed, abs_of_nonneg h.rest_nonneg]
    exact h.rest_le

/-- In every phase at most one order is live. -/
theorem Phase.length_live_le (h : s.Phase) : s.live.length ≤ 1 := by
  cases h with
  | idle h | opened _ h | hedged _ _ h => rw [h.live_eq]; exact Nat.zero_le 1
  | opening _ h | hedging _ _ h => rw [h.live_eq]; exact le_rfl

theorem Phase.length_liveIn_le (h : s.Phase) (role : OrderRole) : (s.liveIn role).length ≤ 1 :=
  (List.length_filter_le _ _).trans h.length_live_le

/-! ## What a handler's requests do -/

/-- A step keeps a cycle in order: it leads to a phase, and what it places has the right side. -/
def Settled (p : OrderCycle × List LiveOrder) : Prop :=
  p.1.Phase ∧ ∀ lo ∈ p.2, p.1.RightSide lo

variable {result : StrategyMeanReversionStateRun × List OrderRequest} {role : OrderRole}
  {sqrt : ℚ → ℚ} {now : OrderId} {snapshot : OrderBookSnapShot}

/-- One order is placed. -/
def place (s : OrderCycle) (order : Order) (role : OrderRole) : OrderCycle × List LiveOrder :=
  ({ s with
      live := s.live ++ [{ order := order, role := role }]
      filledInitial := if role = .initial then none else s.filledInitial },
    [{ order := order, role := role }])

theorem carryOut_of_quiet (h : placements result.2 = []) :
    s.carryOut result role = ({ s with strategy := result.1 }, []) := by
  simp [carryOut, h]

theorem carryOut_of_place (h : placements result.2 = [order]) :
    s.carryOut result role = place { s with strategy := result.1 } order role := by
  simp [carryOut, place, h]

theorem place_live (h : s.live = []) :
    (s.place order role).1.live = [{ order := order, role := role }] := by
  rw [place, h]
  rfl

/-- **The initial order is placed** on its planned side. -/
theorem settled_place_initial (hvolume : 0 ≤ s.strategy.volume)
    (hquantity : order.quantity = s.strategy.volume) (hid : order.orderId ≠ 0)
    (hside : order.side = s.plan.initialOrder.side)
    (hstatus : s.plan.status = .placingInitialOrder) (hlive : s.live = [])
    (hposition : s.position = 0) (hplaced : s.strategy.initialOrder.orderId ≠ 0)
    (hinitial : s.plan.initialOrder.status ≠ .filled) : Settled (s.place order .initial) := by
  have hposition' : s.position = order.side.signed 0 :=
    hposition.trans order.side.signed_zero.symm
  refine ⟨.opening _ ⟨hstatus, place_live hlive, rfl, ?_, hposition', hplaced, hinitial⟩, ?_⟩
  · exact ⟨hquantity, hid, le_rfl, hvolume, fun _ => rfl⟩
  · simpa [place, RightSide, plan] using hside

/-- **The hedge order is placed** against a filled initial order. -/
theorem settled_place_hedge (hvolume : 0 ≤ s.strategy.volume)
    (hquantity : order.quantity = s.strategy.volume) (hid : order.orderId ≠ 0) (side : OrderSide)
    (hside : order.side = side.opposite) (hstatus : s.plan.status.isHedging) (hlive : s.live = [])
    (hposition : s.position = side.signed s.strategy.volume) (hfilled : s.filledInitial = some side)
    (hhedge : s.plan.hedgeOrder.status ≠ .filled) : Settled (s.place order .hedge) := by
  have hposition' : s.position = side.signed (s.strategy.volume - 0) := by rwa [sub_zero]
  refine ⟨.hedging side _
    ⟨hstatus, place_live hlive, rfl, ?_, hside, hposition', hfilled, hhedge⟩, ?_⟩
  · exact ⟨hquantity, hid, le_rfl, hvolume, fun _ => rfl⟩
  · simpa [place, RightSide, hside] using hfilled

/-! ## Snapshots -/

/-- The plan with the mean of a snapshot, before it advances. -/
def measured (s : OrderCycle) (sqrt : ℚ → ℚ) (snapshot : OrderBookSnapShot) :
    SpreadCaptureConfig := s.strategy.spreadCaptures.measured sqrt snapshot

/-- The cycle after a snapshot, but for what is placed on it. -/
def observed (s : OrderCycle) (sqrt : ℚ → ℚ) (now : OrderId) (snapshot : OrderBookSnapShot) :
    OrderCycle :=
  { s with strategy := ((s.strategy.observe sqrt snapshot).act now).1 }

/-- The orders placed on a snapshot. -/
def placedOn (s : OrderCycle) (sqrt : ℚ → ℚ) (now : OrderId) (snapshot : OrderBookSnapShot) :
    List Order :=
  placements ((s.strategy.observe sqrt snapshot).act now).2

@[simp] theorem observed_volume :
    (s.observed sqrt now snapshot).strategy.volume = s.strategy.volume :=
  act_volume now

/-- The plan after a snapshot. -/
theorem observed_plan (s : OrderCycle) (sqrt : ℚ → ℚ) (now : OrderId)
    (snapshot : OrderBookSnapShot) :
    (s.observed sqrt now snapshot).plan =
      if s.nextMean snapshot = 0 then s.measured sqrt snapshot
      else (s.measured sqrt snapshot).advance snapshot.getMidPrice := by
  rw [plan, observed, act_spreadCaptures]
  rfl

theorem observed_status :
    (s.strategy.observe sqrt snapshot).status = (s.observed sqrt now snapshot).plan.status := by
  rw [plan, observed, act_spreadCaptures]
  rfl

theorem step_snapshot (h : snapshot.instrument = some s.strategy.instrument) :
    s.step sqrt (.snapshot now snapshot) =
      s.carryOut ((s.strategy.observe sqrt snapshot).act now)
        (s.observed sqrt now snapshot).plan.status.role := by
  have hresult : s.strategy.handleOrderBookSnapshot sqrt now snapshot =
      (s.strategy.observe sqrt snapshot).act now :=
    if_neg (not_not_intro h)
  rw [step, hresult]
  rfl

/-- A snapshot of another instrument is ignored. -/
theorem step_snapshot_of_ne (h : snapshot.instrument ≠ some s.strategy.instrument) :
    s.step sqrt (.snapshot now snapshot) = (s, []) := by
  have hresult : s.strategy.handleOrderBookSnapshot sqrt now snapshot = (s.strategy, []) :=
    if_pos h
  rw [step, hresult]
  exact carryOut_of_quiet rfl

/-- Nothing is placed, so only the phase matters. -/
theorem settled_snapshot_of_quiet (hinst : snapshot.instrument = some s.strategy.instrument)
    (hquiet : s.placedOn sqrt now snapshot = []) (hphase : (s.observed sqrt now snapshot).Phase) :
    Settled (s.step sqrt (.snapshot now snapshot)) := by
  rw [step_snapshot hinst, carryOut_of_quiet hquiet]
  exact ⟨hphase, by simp⟩

/-- With no prices yet there is no mean. -/
theorem nextMean_of_prices_eq_nil
    (h : s.strategy.spreadCaptures.volatilityEstimator.prices = []) :
    s.nextMean snapshot = 0 := by
  simp [nextMean, SpreadCaptureConfigManager.nextEstimator, VolatilityEstimator.update,
    VolatilityEstimator.mean, VolatilityEstimator.window, h]

/-- An order is placed on a snapshot, in the role of the phase the plan is in. -/
theorem step_snapshot_of_place (hinst : snapshot.instrument = some s.strategy.instrument)
    (hplace : s.placedOn sqrt now snapshot = [order])
    (hrole : (s.observed sqrt now snapshot).plan.status.role = role) :
    s.step sqrt (.snapshot now snapshot) = (s.observed sqrt now snapshot).place order role := by
  rw [step_snapshot hinst, hrole]
  exact carryOut_of_place hplace

/-- **The first order of a cycle**: it is bought, and planned so when the price is not above the
mean. -/
theorem Idle.onSnapshot (h : s.Idle) (hinst : snapshot.instrument = some s.strategy.instrument)
    (hvolume : 0 ≤ s.strategy.volume) (hnow : now ≠ 0)
    (hbelow : s.nextMean snapshot ≠ 0 → snapshot.getMidPrice ≤ s.nextMean snapshot) :
    Settled (s.step sqrt (.snapshot now snapshot)) := by
  have hplan := s.observed_plan sqrt now snapshot
  by_cases hmean : s.nextMean snapshot = 0
  · rw [if_pos hmean] at hplan
    have hstatus : (s.observed sqrt now snapshot).plan.status = .none :=
      (congrArg (·.status) hplan).trans h.status_eq
    have hunfilled : (s.observed sqrt now snapshot).plan.initialOrder.status ≠ .filled := by
      rw [hplan]
      exact h.unfilled
    obtain ⟨hquiet, hnull⟩ := act_of_none now (observed_status.trans hstatus)
    exact settled_snapshot_of_quiet hinst hquiet
      (.idle ⟨hstatus, h.live_eq, h.position_eq, .inl hnull, hunfilled⟩)
  · rw [if_neg hmean, SpreadCaptureConfig.advance_of_not_filled (c := s.measured sqrt snapshot)
      (.inl h.status_eq) h.unfilled] at hplan
    have hstatus : (s.strategy.observe sqrt snapshot).status = .placingInitialOrder :=
      observed_status.trans (congrArg (·.status) hplan)
    have hnull : (s.strategy.observe sqrt snapshot).initialOrder.isNull :=
      h.forgotten.resolve_right fun hnil => hmean (nextMean_of_prices_eq_nil hnil)
    have hact := act_of_isNull now hstatus hnull
    have hside : (s.observed sqrt now snapshot).plan.initialOrder.side = .buy := by
      rw [hplan, SpreadCaptureConfig.planInitialOrder_side]
      exact if_neg (not_lt.mpr (hbelow hmean))
    have hplace : s.placedOn sqrt now snapshot = _ := congrArg (placements ∘ Prod.snd) hact
    rw [step_snapshot_of_place hinst hplace (congrArg (·.status.role) hplan)]
    have hplaced : (s.observed sqrt now snapshot).strategy.initialOrder.orderId ≠ 0 := by
      rw [observed, hact]
      exact hnow
    have hunfilled : (s.observed sqrt now snapshot).plan.initialOrder.status ≠ .filled := by
      rw [hplan, SpreadCaptureConfig.planInitialOrder_orderStatus]
      decide
    exact settled_place_initial (by rwa [observed_volume]) observed_volume.symm hnow hside.symm
      (congrArg (·.status) hplan) h.live_eq h.position_eq hplaced hunfilled

/-- **While the initial order is live**, it is planned anew but no other is placed. -/
theorem Opening.onSnapshot (h : s.Opening lo)
    (hinst : snapshot.instrument = some s.strategy.instrument) :
    Settled (s.step sqrt (.snapshot now snapshot)) := by
  have hplan := s.observed_plan sqrt now snapshot
  have hnext : (s.observed sqrt now snapshot).plan.status = .placingInitialOrder ∧
      (s.observed sqrt now snapshot).plan.initialOrder.status ≠ .filled := by
    rw [hplan]
    split_ifs
    · exact ⟨h.status_eq, h.unfilled⟩
    · rw [SpreadCaptureConfig.advance_of_not_filled (c := s.measured sqrt snapshot)
        (.inr h.status_eq) h.unfilled, SpreadCaptureConfig.planInitialOrder_orderStatus]
      exact ⟨rfl, by decide⟩
  obtain ⟨hquiet, hplaced⟩ := act_of_placed now (observed_status.trans hnext.1) h.orderId_ne
  have hfits : lo.Fits (s.observed sqrt now snapshot).strategy.volume := by
    rw [observed_volume]
    exact h.fits
  exact settled_snapshot_of_quiet hinst hquiet
    (.opening lo ⟨hnext.1, h.live_eq, h.role_eq, hfits, h.position_eq, hplaced, hnext.2⟩)

/-- **Once the initial order is filled**, the hedge order is placed on the other side. -/
theorem Opened.onSnapshot {side : OrderSide} (h : s.Opened side)
    (hinst : snapshot.instrument = some s.strategy.instrument)
    (hvolume : 0 ≤ s.strategy.volume) (hnow : now ≠ 0) :
    Settled (s.step sqrt (.snapshot now snapshot)) := by
  have hplan := s.observed_plan sqrt now snapshot
  have hposition : (s.observed sqrt now snapshot).position =
      side.signed (s.observed sqrt now snapshot).strategy.volume := by
    rw [observed_volume]
    exact h.position_eq
  by_cases hmean : s.nextMean snapshot = 0
  · rw [if_pos hmean] at hplan
    have hstatus : (s.observed sqrt now snapshot).plan.status = .placingInitialOrder :=
      (congrArg (·.status) hplan).trans h.status_eq
    obtain ⟨hquiet, hplaced⟩ := act_of_placed now (observed_status.trans hstatus) h.orderId_ne
    refine settled_snapshot_of_quiet hinst hquiet
      (.opened side ⟨hstatus, h.live_eq, hposition, hplaced, ?_, ?_, h.filledInitial_eq⟩)
    · rw [hplan]
      exact h.filled
    · rw [hplan]
      exact h.side_eq
  · rw [if_neg hmean, SpreadCaptureConfig.advance_of_filled (c := s.measured sqrt snapshot)
      h.status_eq h.filled] at hplan
    have hstatus : (s.observed sqrt now snapshot).plan.status = .placingHedgeOrder :=
      congrArg (·.status) hplan
    obtain ⟨hopposite, havailable⟩ :=
      SpreadCaptureConfig.planHedgeOrder_hedgeOrder (c := (s.measured sqrt snapshot).rescale)
    have hside : (s.strategy.observe sqrt snapshot).spreadCaptures.spreadCapture.hedgeOrder.side =
        side.opposite := by
      have hplanned : (s.observed sqrt now snapshot).plan.hedgeOrder.side = side.opposite := by
        rw [hplan, hopposite, ← h.side_eq]
        rfl
      rw [← hplanned, plan, observed, act_spreadCaptures]
    have hplace : s.placedOn sqrt now snapshot = _ :=
      act_of_placingHedgeOrder now (observed_status.trans hstatus)
    rw [step_snapshot_of_place hinst hplace (congrArg (·.role) hstatus)]
    have hunfilled : (s.observed sqrt now snapshot).plan.hedgeOrder.status ≠ .filled := by
      rw [hplan, havailable]
      decide
    exact settled_place_hedge (by rwa [observed_volume]) observed_volume.symm hnow side hside
      (congrArg (·.isHedging) hstatus) h.live_eq hposition h.filledInitial_eq hunfilled

/-- **Once the hedge order is out**, a snapshot that finds it acknowledged places no other, and ends
the cycle only when it is filled. -/
theorem observed_of_isHedging (hstatus : s.plan.status.isHedging)
    (hacked : s.plan.status = .placingHedgeOrder →
      s.nextMean snapshot ≠ 0 ∧ s.plan.hedgeOrder.status = .new) :
    s.placedOn sqrt now snapshot = [] ∧
      ((s.observed sqrt now snapshot).plan.status.isHedging ∧
          (s.observed sqrt now snapshot).plan.hedgeOrder = s.plan.hedgeOrder ∨
        s.plan.hedgeOrder.status = .filled ∧
          (s.observed sqrt now snapshot).plan.status = .none ∧
          (s.observed sqrt now snapshot).strategy.initialOrder.isNull ∧
          (s.observed sqrt now snapshot).plan.initialOrder.status = .notAvailable) := by
  have hplan := s.observed_plan sqrt now snapshot
  have hwaiting : ((s.observed sqrt now snapshot).plan.status = .waitingForHedgeOrderFilled ∨
        (s.observed sqrt now snapshot).plan.status = .stopLoss) →
      s.placedOn sqrt now snapshot = [] ∧ (s.observed sqrt now snapshot).plan.status.isHedging := by
    intro h
    refine ⟨act_of_waiting now (by rwa [observed_status]), ?_⟩
    rcases h with h | h <;> rw [h] <;> rfl
  by_cases hmean : s.nextMean snapshot = 0
  · -- without a mean the plan stays, and it is past placing the hedge order
    rw [if_pos hmean] at hplan
    have hlate : s.plan.status = .waitingForHedgeOrderFilled ∨ s.plan.status = .stopLoss := by
      cases h : s.plan.status with
      | none | placingInitialOrder => rw [h] at hstatus; cases hstatus
      | placingHedgeOrder => exact absurd hmean (hacked h).1
      | waitingForHedgeOrderFilled => exact .inl rfl
      | stopLoss => exact .inr rfl
    obtain ⟨hquiet, hhedging⟩ := hwaiting (by rw [hplan]; exact hlate)
    exact ⟨hquiet, .inl ⟨hhedging, by rw [hplan]; rfl⟩⟩
  · rw [if_neg hmean] at hplan
    rcases SpreadCaptureConfig.advance_of_isHedging (c := s.measured sqrt snapshot) hstatus
      (fun h => (hacked h).2) with ⟨hlate, hhedge⟩ | ⟨hfilled, hnone, hunfilled⟩
    · rw [← hplan] at hlate hhedge
      obtain ⟨hquiet, hhedging⟩ := hwaiting hlate
      exact ⟨hquiet, .inl ⟨hhedging, hhedge⟩⟩
    · rw [← hplan] at hnone hunfilled
      obtain ⟨hquiet, hnull⟩ :=
        act_of_none now (observed_status.trans hnone)
      exact ⟨hquiet, .inr ⟨hfilled, hnone, hnull, hunfilled⟩⟩

/-- While the hedge order is live, the phase goes on. -/
theorem Hedging.onSnapshot {side : OrderSide} (h : s.Hedging side lo)
    (hinst : snapshot.instrument = some s.strategy.instrument)
    (hacked : s.plan.status = .placingHedgeOrder →
      s.nextMean snapshot ≠ 0 ∧ s.plan.hedgeOrder.status = .new) :
    Settled (s.step sqrt (.snapshot now snapshot)) := by
  obtain ⟨hquiet, ⟨hhedging, hsame⟩ | ⟨hend, -⟩⟩ :=
    observed_of_isHedging (s := s) h.isHedging hacked
  · have hfits : lo.Fits (s.observed sqrt now snapshot).strategy.volume := by
      rw [observed_volume]
      exact h.fits
    refine settled_snapshot_of_quiet hinst hquiet (.hedging side lo
      ⟨hhedging, h.live_eq, h.role_eq, hfits, h.side_eq, ?_, h.filledInitial_eq, ?_⟩)
    · rw [observed_volume]
      exact h.position_eq
    · rw [hsame]
      exact h.unfilled
  · exact absurd hend h.unfilled

/-- With the hedge order gone, the cycle ends once it was filled. -/
theorem Hedged.onSnapshot {side : OrderSide} {rest : ℚ} (h : s.Hedged side rest)
    (hinst : snapshot.instrument = some s.strategy.instrument)
    (hacked : s.plan.status = .placingHedgeOrder →
      s.nextMean snapshot ≠ 0 ∧ s.plan.hedgeOrder.status = .new) :
    Settled (s.step sqrt (.snapshot now snapshot)) := by
  obtain ⟨hquiet, ⟨hhedging, hsame⟩ | ⟨hend, hnone, hnull, hunfilled⟩⟩ :=
    observed_of_isHedging (s := s) h.isHedging hacked
  · refine settled_snapshot_of_quiet hinst hquiet (.hedged side rest
      ⟨hhedging, h.live_eq, h.position_eq, h.rest_nonneg, ?_, ?_⟩)
    · rw [observed_volume]
      exact h.rest_le
    · rw [hsame]
      exact h.rest_eq
  · have hflat : (s.observed sqrt now snapshot).position = 0 := by
      rw [observed, h.position_eq, h.rest_eq hend, OrderSide.signed_zero]
    refine settled_snapshot_of_quiet hinst hquiet
      (.idle ⟨hnone, h.live_eq, hflat, .inl hnull, ?_⟩)
    rw [hunfilled]
    decide

/-- **A snapshot keeps the cycle in its phases.** -/
theorem settled_snapshot (h : s.Phase) (hvolume : 0 ≤ s.strategy.volume) (hnow : now ≠ 0)
    (horderly : s.Orderly (.snapshot now snapshot)) :
    Settled (s.step sqrt (.snapshot now snapshot)) := by
  by_cases hinst : snapshot.instrument = some s.strategy.instrument
  · obtain ⟨hbelow, hacked⟩ := horderly hinst
    cases h with
    | idle h => exact h.onSnapshot hinst hvolume hnow (hbelow h.status_eq)
    | opening lo h => exact h.onSnapshot hinst
    | opened side h => exact h.onSnapshot hinst hvolume hnow
    | hedging side lo h => exact h.onSnapshot hinst hacked
    | hedged side rest h => exact h.onSnapshot hinst hacked
  · rw [step_snapshot_of_ne hinst]
    exact ⟨h, by simp⟩

/-! ## Order updates -/

/-- With one order live, a report is about that order. -/
theorem report_of_live (hlive : s.live = [lo]) (hid : lo.order.orderId = order.orderId) :
    s.report order =
      { s with
        live := (lo.after order).toList
        position := s.position + lo.order.side.signed (lo.fill order)
        filledInitial :=
          if order.status = .filled ∧ lo.role = .initial then some lo.order.side
          else s.filledInitial } := by
  have hreported : s.reported order = some lo := by simp [reported, hlive, hid]
  rw [report, hreported]
  cases h : lo.after order <;> simp [hlive, hid, h]

theorem report_of_new (hlive : s.live = [lo]) (hid : lo.order.orderId = order.orderId)
    (h : order.status = .new) :
    s.report order = { s with live := [{ lo with acked := true }] } := by
  simp [report_of_live hlive hid, LiveOrder.after, LiveOrder.fill, Order.isFill, h]

theorem report_of_partiallyFilled (hlive : s.live = [lo]) (hid : lo.order.orderId = order.orderId)
    (h : order.status = .partiallyFilled) :
    s.report order =
      { s with
        live := [{ lo with filled := order.filledQuantity }]
        position := s.position + lo.order.side.signed (order.filledQuantity - lo.filled) } := by
  simp [report_of_live hlive hid, LiveOrder.after, LiveOrder.fill, Order.isFill, h]

theorem report_of_filled (hlive : s.live = [lo]) (hid : lo.order.orderId = order.orderId)
    (h : order.status = .filled) :
    s.report order =
      { s with
        live := []
        position := s.position + lo.order.side.signed (order.filledQuantity - lo.filled)
        filledInitial :=
          if lo.role = .initial then some lo.order.side else s.filledInitial } := by
  simp [report_of_live hlive hid, LiveOrder.after, LiveOrder.fill, Order.isFill, h]

theorem report_of_gone (hlive : s.live = [lo]) (hid : lo.order.orderId = order.orderId)
    (h : order.status = .canceled ∨ order.status = .rejected) :
    s.report order = { s with live := [] } := by
  rcases h with h | h <;>
    simp [report_of_live hlive hid, LiveOrder.after, LiveOrder.fill, Order.isFill, h]

theorem replacementRole_of_live (hlive : s.live = [lo]) (hid : lo.order.orderId = order.orderId) :
    s.replacementRole order =
      if order.status = .rejected then lo.role else s.plan.status.role := by
  have hreported : s.reported order = some lo := by simp [reported, hlive, hid]
  rw [replacementRole, hreported]

/-- What the hedge order fills is taken off what is held. -/
theorem position_of_hedge {side : OrderSide} {volume filled : ℚ}
    (hposition : s.position = side.signed (volume - lo.filled))
    (hside : lo.order.side = side.opposite) :
    s.position + lo.order.side.signed (filled - lo.filled) = side.signed (volume - filled) := by
  rw [hposition, hside, OrderSide.signed_opposite, OrderSide.signed_add]
  exact congrArg side.signed (by ring)

/-- A report that leads to no new order. -/
theorem step_update_of_quiet {strategy : StrategyMeanReversionStateRun}
    (h : s.strategy.handleOrderUpdate now order = (strategy, [])) :
    s.step sqrt (.update now order) = ({ s.report order with strategy := strategy }, []) := by
  rw [step, h]
  exact carryOut_of_quiet rfl

/-- A report that leads to a new order. -/
theorem step_update_of_place {strategy : StrategyMeanReversionStateRun} {placed : Order}
    (h : s.strategy.handleOrderUpdate now order = (strategy, [.place placed])) :
    s.step sqrt (.update now order) =
      place { s.report order with strategy := strategy } placed (s.replacementRole order) := by
  rw [step, h]
  exact carryOut_of_place rfl

/-- **A report on the initial order.** -/
theorem Opening.onUpdate (hopening : s.Opening lo) (hvolume : 0 ≤ s.strategy.volume)
    (hnow : now ≠ 0) (hallows : lo.Allows order) (horderly : s.Orderly (.update now order)) :
    Settled (s.step sqrt (.update now order)) := by
  obtain ⟨hstatus, hlive, hrole, hfits, hposition, hplaced, hunfilled⟩ := hopening
  obtain ⟨hid, hside, hlife⟩ := hallows
  have hid' : order.orderId ≠ 0 := hid ▸ hfits.orderId_ne
  cases h : order.status with
  | notAvailable =>
    rw [h] at hlife
    exact hlife.elim
  | new =>
    obtain ⟨pnl, hresult⟩ := handleOrderUpdate_of_opening now hstatus (.inl h)
    rw [step_update_of_quiet hresult, report_of_new hlive hid h]
    have hnew : order.status ≠ .filled := by simp [h]
    exact ⟨.opening _ ⟨hstatus, rfl, hrole, hfits.acked, hposition, hid', hnew⟩, by simp⟩
  | rejected =>
    rw [h] at hlife
    have hresult := handleOrderUpdate_of_rejected (s := s.strategy) now h
    rw [step_update_of_place hresult, report_of_gone hlive hid (.inr h),
      replacementRole_of_live hlive hid, if_pos h, hrole]
    have hflat : s.position = 0 := by rw [hposition, hfits.filled_eq hlife, OrderSide.signed_zero]
    exact settled_place_initial hvolume rfl hnow (horderly.1 h hstatus) hstatus rfl hflat hplaced
      hunfilled
  | partiallyFilled =>
    rw [h] at hlife
    rw [step_update_of_quiet (handleOrderUpdate_of_partiallyFilled now h),
      report_of_partiallyFilled hlive hid h, hposition, OrderSide.signed_add, add_sub_cancel]
    exact ⟨.opening _ ⟨hstatus, rfl, hrole, hfits.partlyFilled hlife, rfl, hplaced, hunfilled⟩,
      by simp⟩
  | filled =>
    rw [h] at hlife
    obtain ⟨pnl, hresult⟩ := handleOrderUpdate_of_opening now hstatus (.inr h)
    rw [step_update_of_quiet hresult, report_of_filled hlive hid h, hposition,
      OrderSide.signed_add, add_sub_cancel, hlife.2, hfits.quantity_eq, if_pos hrole]
    exact ⟨.opened lo.order.side ⟨hstatus, rfl, rfl, hid', h, hside.symm, rfl⟩, by simp⟩
  | canceled =>
    have hreported : s.reported order = some lo := by simp [reported, hlive, hid]
    have hempty : lo.filled = 0 := horderly.2 h (.inl hstatus) lo hreported
    have hflat : s.position = 0 := by rw [hposition, hempty, OrderSide.signed_zero]
    have hresult := (handleOrderUpdate_of_canceled now h).trans
      (replaceCanceled_of_opening (s := s.strategy) now hstatus)
    rw [step_update_of_place hresult, report_of_gone hlive hid (.inl h),
      replacementRole_of_live hlive hid, if_neg (by simp [h]), hstatus]
    exact settled_place_initial hvolume rfl hnow rfl hstatus rfl hflat hnow hunfilled

/-- **A report on the hedge order.** -/
theorem Hedging.onUpdate {side : OrderSide} (hhedging : s.Hedging side lo)
    (hvolume : 0 ≤ s.strategy.volume) (hnow : now ≠ 0) (hallows : lo.Allows order)
    (horderly : s.Orderly (.update now order)) : Settled (s.step sqrt (.update now order)) := by
  obtain ⟨hstatus, hlive, hrole, hfits, hside, hposition, hfilled, hunfilled⟩ := hhedging
  obtain ⟨hid, hside', hlife⟩ := hallows
  have hagain : order.side = side.opposite := hside'.symm.trans hside
  cases h : order.status with
  | notAvailable =>
    rw [h] at hlife
    exact hlife.elim
  | new =>
    obtain ⟨pnl, hresult⟩ := handleOrderUpdate_of_isHedging now hstatus (.inl h)
    rw [step_update_of_quiet hresult, report_of_new hlive hid h]
    have hnew : order.status ≠ .filled := by simp [h]
    exact ⟨.hedging side _ ⟨hstatus, rfl, hrole, hfits.acked, hside, hposition, hfilled, hnew⟩,
      by simp⟩
  | rejected =>
    rw [h] at hlife
    have hresult := handleOrderUpdate_of_rejected (s := s.strategy) now h
    rw [step_update_of_place hresult, report_of_gone hlive hid (.inr h),
      replacementRole_of_live hlive hid, if_pos h, hrole]
    rw [hfits.filled_eq hlife, sub_zero] at hposition
    exact settled_place_hedge hvolume rfl hnow side hagain hstatus rfl hposition hfilled hunfilled
  | partiallyFilled =>
    rw [h] at hlife
    rw [step_update_of_quiet (handleOrderUpdate_of_partiallyFilled now h),
      report_of_partiallyFilled hlive hid h]
    exact ⟨.hedging side _ ⟨hstatus, rfl, hrole, hfits.partlyFilled hlife, hside,
      position_of_hedge hposition hside, hfilled, hunfilled⟩, by simp⟩
  | filled =>
    rw [h] at hlife
    obtain ⟨pnl, hresult⟩ := handleOrderUpdate_of_isHedging now hstatus (.inr h)
    rw [step_update_of_quiet hresult, report_of_filled hlive hid h]
    have hflat : s.position + lo.order.side.signed (order.filledQuantity - lo.filled) =
        side.signed 0 := by
      rw [position_of_hedge hposition hside, hlife.2, hfits.quantity_eq, sub_self]
    exact ⟨.hedged side 0 ⟨hstatus, rfl, hflat, le_rfl, hvolume, fun _ => rfl⟩, by simp⟩
  | canceled =>
    have hcanceled := handleOrderUpdate_of_canceled (s := s.strategy) now h
    by_cases hstop : s.plan.status = .stopLoss
    · have hreported : s.reported order = some lo := by simp [reported, hlive, hid]
      have hempty : lo.filled = 0 := horderly.2 h (.inr hstop) lo hreported
      rw [step_update_of_place (hcanceled.trans (replaceCanceled_of_stopLoss now hstop)),
        report_of_gone hlive hid (.inl h), replacementRole_of_live hlive hid,
        if_neg (by simp [h]), hstop]
      rw [hempty, sub_zero] at hposition
      exact settled_place_hedge hvolume rfl hnow side hagain hstatus rfl hposition hfilled hunfilled
    · rw [step_update_of_quiet (hcanceled.trans (replaceCanceled_of_waiting now hstatus hstop)),
        report_of_gone hlive hid (.inl h)]
      exact ⟨.hedged side _ ⟨hstatus, rfl, hposition, sub_nonneg.mpr hfits.filled_le,
        sub_le_self _ hfits.filled_nonneg, fun hend => absurd hend hunfilled⟩, by simp⟩

/-- **A report keeps the cycle in its phases.** -/
theorem settled_update (h : s.Phase) (hvolume : 0 ≤ s.strategy.volume)
    (hlegal : s.Legal (.update now order)) (horderly : s.Orderly (.update now order)) :
    Settled (s.step sqrt (.update now order)) := by
  obtain ⟨hnow, lo, hmem, hallows⟩ := hlegal
  cases h with
  | idle h | opened _ h | hedged _ _ h =>
    -- no order is live, so there is nothing to report on
    rw [h.live_eq] at hmem
    cases hmem
  | opening lo' h =>
    rw [h.live_eq, List.mem_singleton] at hmem
    subst hmem
    exact h.onUpdate hvolume hnow hallows horderly
  | hedging side lo' h =>
    rw [h.live_eq, List.mem_singleton] at hmem
    subst hmem
    exact h.onUpdate hvolume hnow hallows horderly

/-! ## Where the slips show

Off the first three conditions a step breaks the order of the cycle at once. -/

/-- Above the mean, the order bought is not the one planned. -/
theorem not_inOrder_of_above (hinst : snapshot.instrument = some s.strategy.instrument)
    (hstatus : s.plan.status = .none) (hnull : s.strategy.initialOrder.isNull)
    (hinitial : s.plan.initialOrder.status ≠ .filled) (hmean : s.nextMean snapshot ≠ 0)
    (habove : s.nextMean snapshot < snapshot.getMidPrice) :
    ¬ s.InOrder sqrt (.snapshot now snapshot) := by
  have hplan := s.observed_plan sqrt now snapshot
  rw [if_neg hmean, SpreadCaptureConfig.advance_of_not_filled (c := s.measured sqrt snapshot)
    (.inl hstatus) hinitial] at hplan
  have hact := act_of_isNull now
    (observed_status.trans (congrArg (·.status) hplan)) hnull
  have hplace : s.placedOn sqrt now snapshot = _ := congrArg (placements ∘ Prod.snd) hact
  have hside : (s.observed sqrt now snapshot).plan.initialOrder.side = .sell := by
    rw [hplan, SpreadCaptureConfig.planInitialOrder_side]
    exact if_pos habove
  rintro ⟨hsides, -⟩
  rw [step_snapshot_of_place hinst hplace (congrArg (·.status.role) hplan)] at hsides
  have hbuy : OrderSide.buy = _ := (hsides _ (List.mem_singleton_self _)).1 rfl
  exact absurd (hbuy.trans hside) (by decide)

/-- An order placed is one more live order of its role. -/
theorem length_liveIn_place : ((s.place order role).1.liveIn role).length =
    (s.liveIn role).length + 1 := by
  simp [liveIn, place]

/-- A hedge order that is not found acknowledged is placed again. -/
theorem not_inOrder_of_placed_again (hinst : snapshot.instrument = some s.strategy.instrument)
    (hstatus : s.plan.status = .placingHedgeOrder) (hlo : lo ∈ s.live) (hrole : lo.role = .hedge)
    (hagain : s.nextMean snapshot = 0 ∨ s.plan.hedgeOrder.status ≠ .new) :
    ¬ s.InOrder sqrt (.snapshot now snapshot) := by
  have hstatus' : (s.observed sqrt now snapshot).plan.status = .placingHedgeOrder := by
    rw [observed_plan]
    split_ifs with hmean
    · exact hstatus
    · have hsame : (s.measured sqrt snapshot).advance snapshot.getMidPrice =
          s.measured sqrt snapshot := by
        have hnew : (s.measured sqrt snapshot).hedgeOrder.status ≠ .new := hagain.resolve_left hmean
        have hplacing : (s.measured sqrt snapshot).status = .placingHedgeOrder := hstatus
        simp only [SpreadCaptureConfig.advance, hplacing, if_neg hnew]
      rw [hsame]
      exact hstatus
  have hplace : s.placedOn sqrt now snapshot = _ :=
    act_of_placingHedgeOrder now (observed_status.trans hstatus')
  have hhedge : (s.observed sqrt now snapshot).plan.status.role = .hedge := by
    rw [hstatus']
    rfl
  have hlive : 0 < (s.liveIn .hedge).length :=
    List.length_pos_of_mem (List.mem_filter.mpr ⟨hlo, decide_eq_true hrole⟩)
  rintro ⟨-, -, hone, -⟩
  rw [step_snapshot_of_place hinst hplace hhedge, length_liveIn_place] at hone
  exact absurd (Nat.le_of_succ_le_succ hone) (Nat.not_le.mpr hlive)

/-- A rejected initial order is placed again on a side that is no longer planned. -/
theorem not_inOrder_of_rejected (hlive : s.live = [lo]) (hid : lo.order.orderId = order.orderId)
    (hrole : lo.role = .initial) (h : order.status = .rejected)
    (hside : order.side ≠ s.plan.initialOrder.side) : ¬ s.InOrder sqrt (.update now order) := by
  have hresult := handleOrderUpdate_of_rejected (s := s.strategy) now h
  rintro ⟨hsides, -⟩
  rw [step_update_of_place hresult, replacementRole_of_live hlive hid, if_pos h, hrole] at hsides
  exact hside ((hsides _ (List.mem_singleton_self _)).1 rfl)

/-! ## Runs -/

/-- **Each legal step that avoids the slips keeps the cycle in its phases.** -/
theorem settled_step (h : s.Phase) (hvolume : 0 ≤ s.strategy.volume) (e : CycleEvent)
    (hlegal : s.Legal e) (horderly : s.Orderly e) : Settled (s.step sqrt e) := by
  cases e with
  | snapshot now snapshot => exact settled_snapshot h hvolume hlegal horderly
  | update now order => exact settled_update h hvolume hlegal horderly

/-- The volume is a configuration value. -/
theorem step_volume (e : CycleEvent) : (s.step sqrt e).1.strategy.volume = s.strategy.volume := by
  cases e with
  | snapshot now snapshot =>
    exact s.strategy.handleOrderBookSnapshot_volume now
  | update now order =>
    exact s.strategy.handleOrderUpdate_volume now order

/-- A strategy that begins is between two cycles. -/
theorem phase_start (strategy : StrategyMeanReversionStateRun) : (start strategy).Phase :=
  .idle ⟨rfl, rfl, rfl, .inr rfl, show OrderStatus.notAvailable ≠ .filled by decide⟩

/-- **On every run whose steps avoid the four slips the cycle stays in order**: at most one initial
order and one hedge order are live, each is placed on its side, and the position stays within the
volume. -/
theorem orderCycle_inOrder (sqrt : ℚ → ℚ) (strategy : StrategyMeanReversionStateRun)
    (hvolume : 0 ≤ strategy.volume) (es : List CycleEvent)
    (hlegal : Run.Along (Run.next (step · sqrt)) Legal (start strategy) es)
    (horderly : Run.Along (Run.next (step · sqrt)) Orderly (start strategy) es) :
    Run.Along (Run.next (step · sqrt)) (InOrder · sqrt) (start strategy) es := by
  have hkeeps : ∀ (s : OrderCycle) e, (s.Phase ∧ 0 ≤ s.strategy.volume) →
      (s.Legal e ∧ s.Orderly e) → Settled (s.step sqrt e) ∧ 0 ≤ (s.step sqrt e).1.strategy.volume :=
    fun s e hs he => ⟨settled_step hs.1 hs.2 e he.1 he.2, by rw [step_volume]; exact hs.2⟩
  refine Run.along_of_invariant (I := fun s => s.Phase ∧ 0 ≤ s.strategy.volume)
    (fun s e hs he => ?_) (fun s e hs he => ?_) ⟨phase_start strategy, hvolume⟩
    (Run.along_and.mpr ⟨hlegal, horderly⟩)
  · obtain ⟨hsettled, hvolume'⟩ := hkeeps s e hs he
    exact ⟨hsettled.1, hvolume'⟩
  · obtain ⟨⟨hphase, hsides⟩, hvolume'⟩ := hkeeps s e hs he
    exact ⟨hsides, hphase.length_liveIn_le _, hphase.length_liveIn_le _,
      (hphase.position_le hvolume').trans_eq (step_volume e)⟩

/-- The strategy of the runs below, on a hundredth of a coin. -/
def btcusdtStrategy : StrategyMeanReversionStateRun where
  instrument := .create .binance .perpetual "BTCUSDT" "BTCUSDT" 3 1

/-- A snapshot of the strategy's instrument at a price. -/
def quote (now : OrderId) (price : ℚ) : CycleEvent :=
  .snapshot now
    (.ofLevels (some btcusdtStrategy.instrument) [{ price := price, quantity := 1 }]
      [{ price := price, quantity := 1 }])

/-- A steady price: the initial order is bought and filled in two parts, the hedge order is sold and
acknowledged before the next snapshot, and the cycle ends with it filled. -/
def steadyCycle : List CycleEvent :=
  List.replicate 150 (quote 1 100) ++
    [.update 2 { orderId := 1, status := .new, side := .buy },
      .update 2
        { orderId := 1, status := .partiallyFilled, side := .buy, filledQuantity := 1 / 200 },
      .update 2 { orderId := 1, status := .filled, side := .buy, filledQuantity := 1 / 100 },
      quote 3 100,
      .update 4 { orderId := 3, status := .new, side := .sell },
      quote 5 100,
      .update 6 { orderId := 3, status := .filled, side := .sell, filledQuantity := 1 / 100 },
      quote 7 100]

theorem steadyCycle_inOrder :
    Run.Along (Run.next (step · Rat.sqrt)) (InOrder · Rat.sqrt) (start btcusdtStrategy)
      steadyCycle :=
  orderCycle_inOrder Rat.sqrt btcusdtStrategy (by decide +kernel) steadyCycle (by decide +kernel)
    (by decide +kernel)

/-- **The price rises above its mean as the window fills**: the plan is to sell, and the order
placed buys. -/
theorem rising_not_inOrder :
    Run.Along (Run.next (step · Rat.sqrt)) Legal (start btcusdtStrategy)
        (List.replicate 149 (quote 1 100) ++ [quote 1 101]) ∧
      ¬ Run.Along (Run.next (step · Rat.sqrt)) (InOrder · Rat.sqrt) (start btcusdtStrategy)
        (List.replicate 149 (quote 1 100) ++ [quote 1 101]) := by
  decide +kernel

end OrderCycle

end TradingEngine
