import TradingEngine.OrderBook.Book
import TradingEngine.OrderBook.SideGrid
import TradingEngine.OrderBook.WindowBook

/-!
# OrderBook/Refinement — the array book is a price map seen through a window

    OrderBook ──call──▸ OrderBook
        │                  │
     Refines            Refines
        │                  │
    WindowBook ─call─▸ WindowBook

`Refines` relates an `OrderBook` to the price map it stands for, read at the grid prices; each call
keeps it (`refines_call`), whatever rebases the call performs on the way.
-/

namespace TradingEngine

open Grid

/-- The window of a book: `depth` ticks around the base, near an end within `delta` of it. -/
def windowShape (tick : ℚ) (depth : ℕ) (delta : ℚ) : WindowShape ℚ where
  inWindow := InWindow tick depth
  nearEnd base p :=
    p ≤ base - (depth / 2 : ℕ) * tick + delta ∨
      base + (depth - 1 - depth / 2 : ℕ) * tick - delta ≤ p

/-- A call on a book. -/
inductive BookCall
  | update (u : OrderBookUpdate)
  | snapshot (s : OrderBookSnapShot)
  | reset

/-- The book after a call. -/
def OrderBook.call (b : OrderBook) : BookCall → OrderBook
  | .update u => b.applyUpdate u
  | .snapshot s => b.applySnapshot s
  | .reset => b.reset

/-- The writes of one side of a snapshot, in order. -/
noncomputable def WindowBook.writeAll (w : WindowShape ℚ) (a : WindowBook ℚ ℚ)
    (t : OrderBookSideType) (levels : List OrderBookLevel) : WindowBook ℚ ℚ :=
  levels.foldl (fun a l => a.write w t l.price l.quantity) a

/-- The price map after a call: write or erase one price, or clear and write a snapshot; then
rebase. -/
noncomputable def WindowBook.call (w : WindowShape ℚ) (a : WindowBook ℚ ℚ) :
    BookCall → WindowBook ℚ ℚ
  | .update u =>
    match u.type with
    | .add | .update => (a.write w u.side u.price u.quantity).rebase w
    | .remove => (a.erase w u.side u.price).rebase w
  | .snapshot s => ((a.clear.writeAll w .bid s.bidLevels).writeAll w .ask s.askLevels).rebase w
  | .reset => a.clear

/-- A call whose prices lie on the grid and whose quantities are not negative. -/
def BookCall.Ok (origin tick : ℚ) : BookCall → Prop
  | .update u => OnGrid origin tick u.price ∧ 0 ≤ u.quantity
  | .snapshot s => ∀ l ∈ s.bidLevels ++ s.askLevels, OnGrid origin tick l.price ∧ 0 ≤ l.quantity
  | .reset => True

/-- **The book stands for the price map**: same base, same quantity at every grid price, and no
level off the grid or outside the window. -/
structure Refines (origin tick : ℚ) (depth : ℕ) (delta : ℚ) (b : OrderBook)
    (a : WindowBook ℚ ℚ) : Prop where
  inv : ∀ t, (b.getSide t).Inv
  tick_eq : b.tickSize = tick
  depth_eq : b.depth = depth
  delta_eq : b.rebaseDelta = delta
  base_eq : a.base = b.basePrice
  base_onGrid : OnGrid origin tick b.basePrice
  quantity_eq : ∀ t p, OnGrid origin tick p → (b.getSide t).getQuantity p = a.levels t p
  nonneg : ∀ t p, 0 ≤ a.levels t p
  level_ok : ∀ t p, a.levels t p ≠ 0 → OnGrid origin tick p ∧ InWindow tick depth a.base p

namespace Refines

variable {origin tick : ℚ} {depth : ℕ} {delta : ℚ} {b : OrderBook} {a : WindowBook ℚ ℚ}

/-! ## Reading one side -/

/-- The grid of a side is the grid of the book. -/
theorem onGrid_iff (h : Refines origin tick depth delta b a) (t : OrderBookSideType) (p : ℚ) :
    (b.getSide t).OnGrid p ↔ OnGrid origin tick p := by
  rw [OrderBookSide.OnGrid, b.getSide_basePrice, b.getSide_tickSize, h.tick_eq]
  exact ⟨fun hp => h.base_onGrid.trans hp, fun hp => h.base_onGrid.rebase hp⟩

theorem window_iff (h : Refines origin tick depth delta b a) (t : OrderBookSideType) (p : ℚ) :
    (b.getSide t).Window p ↔ InWindow tick depth a.base p := by
  rw [OrderBookSide.Window, b.getSide_basePrice, b.getSide_tickSize, b.getSide_depth, h.tick_eq,
    h.depth_eq, h.base_eq]

/-- **The filled prices of a side are the prices of the map.** -/
theorem filledPrices_eq (h : Refines origin tick depth delta b a) (t : OrderBookSideType) :
    (b.getSide t).filledPrices = {p | a.levels t p ≠ 0} := by
  ext p
  rw [OrderBookSide.mem_filledPrices_iff, h.onGrid_iff]
  constructor
  · rintro ⟨hp, hq⟩
    rw [h.quantity_eq t p hp] at hq
    exact hq.ne'
  · intro hne
    obtain ⟨hp, _⟩ := h.level_ok t p hne
    rw [h.quantity_eq t p hp]
    exact ⟨hp, lt_of_le_of_ne (h.nonneg t p) (Ne.symm hne)⟩

theorem hasTop_iff (h : Refines origin tick depth delta b a) (t : OrderBookSideType) :
    (b.getSide t).hasTop = true ↔ (b.getSide t).filled.Nonempty := by
  rw [OrderBookSide.hasTop, decide_eq_true_iff, ne_eq,
    OrderBookSide.topIndex_eq_invalidIndex_iff (h.inv t), Set.nonempty_iff_ne_empty]

/-- **A side that reports a top reports the best price of the map.** -/
theorem best_getTopPrice (h : Refines origin tick depth delta b a) {t : OrderBookSideType}
    (ht : (b.getSide t).hasTop = true) : a.Best t (b.getSide t).getTopPrice := by
  have hbest := (OrderBookSide.getTop_of_nonempty (h.inv t) ((h.hasTop_iff t).mp ht)).1
  rw [h.filledPrices_eq t, b.getSide_side] at hbest
  exact hbest

theorem hasTop_of_best (h : Refines origin tick depth delta b a) {t : OrderBookSideType} {p : ℚ}
    (hp : a.Best t p) : (b.getSide t).hasTop = true := by
  rw [h.hasTop_iff t]
  have hmem : p ∈ (b.getSide t).filledPrices := by
    rw [h.filledPrices_eq t]
    exact IsBest.mem hp
  obtain ⟨i, hi, _⟩ := hmem
  exact ⟨i, hi⟩

/-! ## The rebase trigger -/

theorem nearBoundary_iff (h : Refines origin tick depth delta b a) (t : OrderBookSideType) (p : ℚ) :
    (b.getSide t).nearBoundary p delta = true ↔
      (windowShape tick depth delta).nearEnd a.base p := by
  have hd := (b.getSide t).depth_pos
  have hmin : (b.getSide t).rangeMinPrice = a.base - (depth / 2 : ℕ) * tick := by
    rw [OrderBookSide.rangeMinPrice, OrderBookSide.indexToPrice, OrderBookSide.centerIndex]
    simp only [OrderBook.getSide_basePrice, OrderBook.getSide_tickSize, OrderBook.getSide_depth,
      h.tick_eq, h.depth_eq, h.base_eq, Nat.cast_zero, zero_sub, Int.cast_neg, Int.cast_natCast]
    ring
  have hmax : (b.getSide t).rangeMaxPrice = a.base + (depth - 1 - depth / 2 : ℕ) * tick := by
    rw [OrderBookSide.rangeMaxPrice, OrderBookSide.indexToPrice, OrderBookSide.centerIndex]
    simp only [OrderBook.getSide_basePrice, OrderBook.getSide_tickSize, OrderBook.getSide_depth,
      h.tick_eq, h.depth_eq, h.base_eq] at hd ⊢
    have : ((depth - 1 : ℕ) : ℤ) - ((depth / 2 : ℕ) : ℤ) = ((depth - 1 - depth / 2 : ℕ) : ℤ) := by
      omega
    rw [this, Int.cast_natCast]
  rw [OrderBookSide.nearBoundary, Bool.or_eq_true, decide_eq_true_iff, decide_eq_true_iff, hmin,
    hmax]
  exact Iff.rfl

/-- The best price of a side is in its trigger zone exactly when it is near an end. -/
theorem inRebaseTriggerZone_iff (h : Refines origin tick depth delta b a) {t : OrderBookSideType}
    {p : ℚ} (hp : a.Best t p) :
    (b.getSide t).inRebaseTriggerZone p delta = true ↔
      (windowShape tick depth delta).nearEnd a.base p := by
  obtain ⟨hgrid, hwin⟩ := h.level_ok t p (IsBest.mem hp)
  have hvalid : (b.getSide t).validPrice p = true := by
    rw [OrderBookSide.validPrice_iff _ ((h.onGrid_iff t p).mpr hgrid), h.window_iff]
    exact hwin
  rw [OrderBookSide.inRebaseTriggerZone, hvalid, Bool.true_and, h.nearBoundary_iff]

/-- **The book rebases exactly when the map does.** -/
theorem shouldRebase_iff (h : Refines origin tick depth delta b a) :
    b.shouldRebase = true ↔ a.Triggered (windowShape tick depth delta) := by
  constructor
  · intro hs
    rw [OrderBook.shouldRebase, OrderBook.hasSpread, Bool.and_eq_true, Bool.and_eq_true,
      Bool.or_eq_true, h.delta_eq] at hs
    obtain ⟨⟨hbid, hask⟩, hzone⟩ := hs
    have hb : a.Best .bid b.bestBidPrice := h.best_getTopPrice (t := .bid) hbid
    have ha : a.Best .ask b.bestAskPrice := h.best_getTopPrice (t := .ask) hask
    refine ⟨_, _, hb, ha, hzone.imp ?_ ?_⟩
    · exact (h.inRebaseTriggerZone_iff hb).mp
    · exact (h.inRebaseTriggerZone_iff ha).mp
  · rintro ⟨pb, pa, hb, ha, hnear⟩
    have hbid := h.hasTop_of_best hb
    have hask := h.hasTop_of_best ha
    obtain rfl : pb = b.bestBidPrice := hb.unique (h.best_getTopPrice hbid)
    obtain rfl : pa = b.bestAskPrice := ha.unique (h.best_getTopPrice hask)
    rw [OrderBook.shouldRebase, OrderBook.hasSpread, Bool.and_eq_true, Bool.and_eq_true,
      Bool.or_eq_true, h.delta_eq]
    refine ⟨⟨hbid, hask⟩, hnear.imp ?_ ?_⟩
    · exact (h.inRebaseTriggerZone_iff hb).mpr
    · exact (h.inRebaseTriggerZone_iff ha).mpr

/-! ## The calls -/

theorem fresh {i : Option Instrument} (ht : 0 < tick) (hd : 0 < depth) (hle : depth ≤ maxSize) :
    Refines origin tick depth delta (.fresh i origin tick depth delta ht hd hle)
      ⟨origin, fun _ => 0⟩ where
  inv t := by cases t <;> exact OrderBookSide.inv_fresh ht hd hle
  tick_eq := rfl
  depth_eq := rfl
  delta_eq := rfl
  base_eq := rfl
  base_onGrid := onGrid_self origin tick
  quantity_eq t p _ := by
    cases t <;>
    · rw [OrderBookSide.getQuantity_eq]
      exact OrderBookSide.quantityAtIndex_fresh ht hd hle _
  nonneg _ _ := le_rfl
  level_ok _ _ hne := absurd rfl hne

theorem setSideLevel (h : Refines origin tick depth delta b a) (t : OrderBookSideType) {p q : ℚ}
    (hp : OnGrid origin tick p) (hq : 0 ≤ q) :
    Refines origin tick depth delta (b.setSideLevel t p q)
      (a.write (windowShape tick depth delta) t p q) := by
  -- the map after the write, case by case
  have hwrite : ∀ t' p', (a.write (windowShape tick depth delta) t p q).levels t' p' =
      if InWindow tick depth a.base p ∧ t' = t ∧ p' = p then q else a.levels t' p' := by
    intro t' p'
    by_cases hin : InWindow tick depth a.base p
    · by_cases heq : t' = t ∧ p' = p
      · obtain ⟨rfl, rfl⟩ := heq
        rw [if_pos ⟨hin, rfl, rfl⟩]
        exact WindowBook.write_apply_self hin q
      · rw [if_neg fun hc => heq hc.2]
        exact WindowBook.write_apply_of_ne heq q
    · have hzero : a.levels t p = 0 := by_contra fun hne => hin (h.level_ok t p hne).2
      rw [if_neg fun hc => hin hc.1]
      exact WindowBook.write_apply_of_not_inWindow hin hzero q t' p'
  refine ⟨fun t' => ?_, ?_, ?_, ?_, ?_, ?_, fun t' p' hp' => ?_, fun t' p' => ?_,
    fun t' p' hne => ?_⟩
  · rw [OrderBook.getSide_setSideLevel]
    split
    · exact OrderBookSide.inv_setLevel (h.inv t') p q
    · exact h.inv t'
  · rw [OrderBook.setSideLevel_tickSize, h.tick_eq]
  · rw [OrderBook.setSideLevel_depth, h.depth_eq]
  · rw [OrderBook.setSideLevel_rebaseDelta, h.delta_eq]
  · rw [WindowBook.write_base, OrderBook.setSideLevel_basePrice, h.base_eq]
  · rw [OrderBook.setSideLevel_basePrice]
    exact h.base_onGrid
  · rw [OrderBook.getSide_setSideLevel, hwrite]
    by_cases ht : t' = t
    · rw [if_pos ht, OrderBookSide.getQuantity_setLevel _ ((h.onGrid_iff t' p).mpr hp)
        ((h.onGrid_iff t' p').mpr hp'), h.quantity_eq t' p' hp']
      simp only [h.window_iff, ht, true_and]
    · rw [if_neg ht, h.quantity_eq t' p' hp', if_neg fun hc => ht hc.2.1]
  · rw [hwrite]
    split
    · exact hq
    · exact h.nonneg t' p'
  · rw [hwrite] at hne
    rw [WindowBook.write_base]
    split at hne
    · rename_i hc
      obtain ⟨hin, _, rfl⟩ := hc
      exact ⟨hp, hin⟩
    · exact h.level_ok t' p' hne

theorem reset (h : Refines origin tick depth delta b a) :
    Refines origin tick depth delta b.reset a.clear where
  inv t := by
    rw [OrderBook.getSide_reset]
    exact OrderBookSide.inv_clear _
  tick_eq := h.tick_eq
  depth_eq := h.depth_eq
  delta_eq := h.delta_eq
  base_eq := h.base_eq
  base_onGrid := h.base_onGrid
  quantity_eq t p _ := by
    rw [OrderBook.getSide_reset, OrderBookSide.getQuantity_clear]
    rfl
  nonneg _ _ := le_rfl
  level_ok _ _ hne := absurd rfl hne

/-- **A move to the best bid keeps the levels of the new window and no others.** -/
theorem moveToBestBid (h : Refines origin tick depth delta b a)
    (hb : a.Best .bid b.bestBidPrice) :
    Refines origin tick depth delta (b.moveToNewBasePrice b.bestBidPrice)
      (a.moveTo (windowShape tick depth delta) b.bestBidPrice) := by
  have hgrid : OnGrid origin tick b.bestBidPrice := (h.level_ok .bid _ (IsBest.mem hb)).1
  have hmove : ∀ t p, OnGrid origin tick p →
      ((b.getSide t).moveToNewBasePrice b.bestBidPrice).getQuantity p =
        if 0 < a.levels t p ∧ InWindow tick depth b.bestBidPrice p then a.levels t p else 0 := by
    intro t p hp
    rw [OrderBookSide.getQuantity_moveToNewBasePrice _ ((h.onGrid_iff t _).mpr hgrid)
      ((h.onGrid_iff t p).mpr hp), h.quantity_eq t p hp]
    simp only [OrderBook.getSide_tickSize, OrderBook.getSide_depth, h.tick_eq, h.depth_eq]
  refine ⟨fun t => ?_, ?_, ?_, h.delta_eq, ?_, ?_, fun t p hp => ?_, fun t p => ?_,
    fun t p hne => ?_⟩
  · rw [OrderBook.getSide_moveToNewBasePrice]
    exact OrderBookSide.inv_moveToNewBasePrice _ _
  · exact (OrderBookSide.moveToNewBasePrice_tickSize _ _).trans h.tick_eq
  · exact (OrderBookSide.moveToNewBasePrice_depth _ _).trans h.depth_eq
  · exact (OrderBookSide.moveToNewBasePrice_basePrice _ _).symm
  · rw [OrderBook.basePrice, OrderBook.moveToNewBasePrice,
      OrderBookSide.moveToNewBasePrice_basePrice]
    exact hgrid
  · rw [OrderBook.getSide_moveToNewBasePrice, hmove t p hp]
    by_cases hin : InWindow tick depth b.bestBidPrice p
    · rw [WindowBook.moveTo_apply_of_inWindow hin]
      by_cases hpos : 0 < a.levels t p
      · rw [if_pos ⟨hpos, hin⟩]
      · rw [if_neg fun hc => hpos hc.1]
        exact le_antisymm (h.nonneg t p) (not_lt.mp hpos)
    · rw [if_neg fun hc => hin hc.2]
      exact (WindowBook.moveTo_apply_of_not_inWindow hin t).symm
  · by_cases hin : InWindow tick depth b.bestBidPrice p
    · rw [WindowBook.moveTo_apply_of_inWindow hin]
      exact h.nonneg t p
    · rw [WindowBook.moveTo_apply_of_not_inWindow hin]
  · by_cases hin : InWindow tick depth b.bestBidPrice p
    · rw [WindowBook.moveTo_apply_of_inWindow hin] at hne
      exact ⟨(h.level_ok t p hne).1, hin⟩
    · exact absurd (WindowBook.moveTo_apply_of_not_inWindow hin t) hne

theorem maybeRebase (h : Refines origin tick depth delta b a) :
    Refines origin tick depth delta b.maybeRebase (a.rebase (windowShape tick depth delta)) := by
  rw [OrderBook.maybeRebase]
  by_cases hs : b.shouldRebase = true
  · have htrig := h.shouldRebase_iff.mp hs
    obtain ⟨pb, _, hpb, _⟩ := id htrig
    have hb : a.Best .bid b.bestBidPrice := h.best_getTopPrice (h.hasTop_of_best hpb)
    rw [if_pos hs, WindowBook.rebase_of_triggered htrig hb]
    exact h.moveToBestBid hb
  · rw [if_neg hs, WindowBook.rebase_of_not_triggered (mt h.shouldRebase_iff.mpr hs)]
    exact h

theorem setSideLevels (h : Refines origin tick depth delta b a) (t : OrderBookSideType)
    {levels : List OrderBookLevel}
    (hl : ∀ l ∈ levels, OnGrid origin tick l.price ∧ 0 ≤ l.quantity) :
    Refines origin tick depth delta (b.setSideLevels t levels)
      (a.writeAll (windowShape tick depth delta) t levels) := by
  induction levels generalizing b a with
  | nil => exact h
  | cons l levels ih =>
    obtain ⟨hp, hq⟩ := hl l List.mem_cons_self
    exact ih (h.setSideLevel t hp hq) fun l' hl' => hl l' (List.mem_cons_of_mem _ hl')

theorem loadSnapshot (h : Refines origin tick depth delta b a) {s : OrderBookSnapShot}
    (hs : ∀ l ∈ s.bidLevels ++ s.askLevels, OnGrid origin tick l.price ∧ 0 ≤ l.quantity) :
    Refines origin tick depth delta (b.loadSnapshot s)
      ((a.clear.writeAll (windowShape tick depth delta) .bid s.bidLevels).writeAll
        (windowShape tick depth delta) .ask s.askLevels) :=
  (h.reset.setSideLevels .bid fun l hl => hs l (List.mem_append_left _ hl)).setSideLevels .ask
    fun l hl => hs l (List.mem_append_right _ hl)

/-- **Every call keeps the refinement.** -/
theorem call (h : Refines origin tick depth delta b a) {c : BookCall} (hc : c.Ok origin tick) :
    Refines origin tick depth delta (b.call c) (a.call (windowShape tick depth delta) c) := by
  cases c with
  | update u =>
    obtain ⟨hp, hq⟩ := hc
    rw [OrderBook.call, WindowBook.call, OrderBook.applyUpdate, OrderBook.applyUpdateWithoutRebase]
    cases u.type
    · exact (h.setSideLevel u.side hp hq).maybeRebase
    · exact (h.setSideLevel u.side hp hq).maybeRebase
    · exact (h.setSideLevel u.side hp le_rfl).maybeRebase
  | snapshot s => exact (h.loadSnapshot hc).maybeRebase
  | reset => exact h.reset

/-- **…and so does every sequence of calls.** -/
theorem exec (h : Refines origin tick depth delta b a) {cs : List BookCall}
    (hcs : ∀ c ∈ cs, c.Ok origin tick) :
    Refines origin tick depth delta (Run.exec OrderBook.call b cs)
      (Run.exec (WindowBook.call (windowShape tick depth delta)) a cs) := by
  induction cs generalizing b a with
  | nil => exact h
  | cons c cs ih =>
    exact ih (h.call (hcs c List.mem_cons_self)) fun c' hc' => hcs c' (List.mem_cons_of_mem _ hc')

end Refines

/-! ## A level survives as long as the window sees it -/

/-- A call that may change the level at price `p` of side `t`. -/
def BookCall.Touches (t : OrderBookSideType) (p : ℚ) : BookCall → Prop
  | .update u => u.side = t ∧ u.price = p
  | .snapshot _ => True
  | .reset => True

namespace WindowBook

variable {w : WindowShape ℚ} {a : WindowBook ℚ ℚ} {t : OrderBookSideType} {p : ℚ}

/-- A call on another level keeps this one, whatever it rebases, if the new window sees it. -/
theorem call_apply_of_not_touches {c : BookCall} (hc : ¬ c.Touches t p)
    (hin : w.inWindow (a.call w c).base p) : (a.call w c).levels t p = a.levels t p := by
  cases c with
  | update u =>
    have hne : ¬ (t = u.side ∧ p = u.price) := fun h => hc ⟨h.1.symm, h.2.symm⟩
    rw [call] at hin ⊢
    split at hin <;> rw [rebase_apply_of_inWindow hin]
    · exact write_apply_of_ne hne _
    · exact write_apply_of_ne hne _
    · exact write_apply_of_ne hne _
  | snapshot s => exact absurd trivial hc
  | reset => exact absurd trivial hc

theorem exec_apply_of_not_touches {cs : List BookCall} (hcs : ∀ c ∈ cs, ¬ c.Touches t p)
    (hin : ∀ mid, mid <+: cs → w.inWindow (Run.exec (call w) a mid).base p) :
    (Run.exec (call w) a cs).levels t p = a.levels t p := by
  induction cs generalizing a with
  | nil => rfl
  | cons c cs ih =>
    have hhead := hin [c] (List.prefix_append [c] cs)
    rw [Run.exec_cons, ih (fun c' hc' => hcs c' (List.mem_cons_of_mem _ hc'))
      fun mid hmid => hin (c :: mid) (List.cons_prefix_cons.mpr ⟨rfl, hmid⟩)]
    exact call_apply_of_not_touches (hcs c List.mem_cons_self) hhead

/-- A write inside the window reads back after its own rebase, if the new window sees it. -/
theorem call_update_apply {u : OrderBookUpdate} (hu : u.type ≠ .remove)
    (hin : w.inWindow a.base u.price) (hin' : w.inWindow (a.call w (.update u)).base u.price) :
    (a.call w (.update u)).levels u.side u.price = u.quantity := by
  rw [call] at hin' ⊢
  split at hin' <;> rename_i htype
  · rw [rebase_apply_of_inWindow hin', write_apply_self hin]
  · rw [rebase_apply_of_inWindow hin', write_apply_self hin]
  · exact absurd htype hu

end WindowBook

/-! ## The main theorem -/

/-- The price map of a new book. -/
noncomputable def WindowBook.init (origin : ℚ) : WindowBook ℚ ℚ := ⟨origin, fun _ => 0⟩

namespace Refines

variable {origin tick : ℚ} {depth : ℕ} {delta : ℚ} {i : Option Instrument} {b₀ b : OrderBook}
  {a : WindowBook ℚ ℚ}

/-- **A constructed book stands for its price map after every sequence of calls.** -/
theorem of_create (h : OrderBook.create i origin tick depth delta = .ok b₀) {cs : List BookCall}
    (hcs : ∀ c ∈ cs, c.Ok origin tick) :
    Refines origin tick depth delta (Run.exec OrderBook.call b₀ cs)
      (Run.exec (WindowBook.call (windowShape tick depth delta)) (.init origin) cs) := by
  obtain ⟨ht, hd, hle, rfl⟩ := OrderBook.create_eq_ok h
  exact (Refines.fresh ht hd hle).exec hcs

/-- **What a side reports as its top is the best level of the map.** -/
theorem top_eq (h : Refines origin tick depth delta b a) (t : OrderBookSideType) :
    ((b.getSide t).hasTop = true ↔ ∃ p, a.levels t p ≠ 0) ∧
      ((b.getSide t).hasTop = true →
        IsBest t {p | a.levels t p ≠ 0} (b.getSide t).getTopPrice ∧
          (b.getSide t).getTopQuantity = a.levels t (b.getSide t).getTopPrice) := by
  constructor
  · rw [h.hasTop_iff, ← Set.image_nonempty (f := (b.getSide t).indexToPrice),
      show _ '' _ = (b.getSide t).filledPrices from rfl, h.filledPrices_eq]
    exact Iff.rfl
  · intro ht
    obtain ⟨_, i, hi, hp, hq⟩ := OrderBookSide.getTop_of_nonempty (h.inv t) ((h.hasTop_iff t).mp ht)
    have hbest := h.best_getTopPrice ht
    refine ⟨hbest, ?_⟩
    rw [← h.quantity_eq t _ (h.level_ok t _ (IsBest.mem hbest)).1, OrderBookSide.getQuantity_eq, hp,
      OrderBookSide.priceToIndex_indexToPrice _ (OrderBookSide.lt_depth_of_mem_filled hi), hq]

/-- **A level keeps the quantity of its last update while the window sees it.** -/
theorem quantity_of_last_update (h : OrderBook.create i origin tick depth delta = .ok b₀)
    {pre post : List BookCall} {u : OrderBookUpdate}
    (hcs : ∀ c ∈ pre ++ .update u :: post, c.Ok origin tick) (hu : u.type ≠ .remove)
    (hin : InWindow tick depth (Run.exec OrderBook.call b₀ pre).basePrice u.price)
    (hpost : ∀ c ∈ post, ¬ c.Touches u.side u.price)
    (hmid : ∀ mid, mid <+: post → InWindow tick depth
      (Run.exec OrderBook.call b₀ (pre ++ .update u :: mid)).basePrice u.price) :
    ((Run.exec OrderBook.call b₀ (pre ++ .update u :: post)).getSide u.side).getQuantity u.price =
      u.quantity := by
  have hpre : ∀ c ∈ pre, c.Ok origin tick := fun c hc => hcs c (List.mem_append_left _ hc)
  have huok : (BookCall.update u).Ok origin tick := hcs _ (by simp)
  -- the base of the map is the base of the book, before and after every call
  have hbase : ∀ mid, mid <+: post →
      InWindow tick depth (Run.exec (WindowBook.call (windowShape tick depth delta)) (.init origin)
        (pre ++ .update u :: mid)).base u.price := by
    intro mid hm
    have hok : ∀ c ∈ pre ++ .update u :: mid, c.Ok origin tick := by
      intro c hc
      refine hcs c ?_
      simp only [List.mem_append, List.mem_cons] at hc ⊢
      exact hc.imp_right (Or.imp_right fun hc => hm.subset hc)
    rw [(of_create h hok).base_eq]
    exact hmid mid hm
  rw [(of_create h hcs).quantity_eq u.side u.price huok.1, Run.exec_append, Run.exec_cons,
    WindowBook.exec_apply_of_not_touches hpost fun mid hm => ?_]
  · refine WindowBook.call_update_apply hu ?_ ?_
    · rw [(of_create h hpre).base_eq]
      exact hin
    · have := hbase [] (List.nil_prefix)
      rw [Run.exec_append, Run.exec_cons, Run.exec_nil] at this
      exact this
  · have := hbase mid hm
    rw [Run.exec_append, Run.exec_cons] at this
    exact this

end Refines

/-- **An `OrderBook` is a windowed price map**: after every sequence of calls on the grid, its base
is that of the map, its quantities are those of the map at every grid price, its best bid and ask
are the greatest bid and the least ask of the map, and a level that stayed in the window since its
last update still carries that update's quantity. -/
theorem orderBook_refines_windowBook {i : Option Instrument} {origin tick : ℚ} {depth : ℕ}
    {delta : ℚ} {b₀ : OrderBook} (h : OrderBook.create i origin tick depth delta = .ok b₀)
    {cs : List BookCall} (hcs : ∀ c ∈ cs, c.Ok origin tick) :
    let b := Run.exec OrderBook.call b₀ cs
    let a := Run.exec (WindowBook.call (windowShape tick depth delta)) (.init origin) cs
    b.basePrice = a.base ∧
      (∀ p, OnGrid origin tick p →
        b.getBidQuantity p = a.levels .bid p ∧ b.getAskQuantity p = a.levels .ask p) ∧
      (∀ t p, a.levels t p ≠ 0 →
        0 < a.levels t p ∧ OnGrid origin tick p ∧ InWindow tick depth a.base p) ∧
      ((b.hasBestBid = true ↔ ∃ p, a.levels .bid p ≠ 0) ∧
        (b.hasBestBid = true → IsGreatest {p | a.levels .bid p ≠ 0} b.bestBidPrice ∧
          b.bestBidQuantity = a.levels .bid b.bestBidPrice)) ∧
      ((b.hasBestAsk = true ↔ ∃ p, a.levels .ask p ≠ 0) ∧
        (b.hasBestAsk = true → IsLeast {p | a.levels .ask p ≠ 0} b.bestAskPrice ∧
          b.bestAskQuantity = a.levels .ask b.bestAskPrice)) ∧
      ∀ (pre post : List BookCall) (u : OrderBookUpdate), cs = pre ++ .update u :: post →
        u.type ≠ .remove → InWindow tick depth (Run.exec OrderBook.call b₀ pre).basePrice u.price →
        (∀ c ∈ post, ¬ c.Touches u.side u.price) →
        (∀ mid, mid <+: post → InWindow tick depth
          (Run.exec OrderBook.call b₀ (pre ++ .update u :: mid)).basePrice u.price) →
        (b.getSide u.side).getQuantity u.price = u.quantity := by
  intro b a
  have href : Refines origin tick depth delta b a := Refines.of_create h hcs
  refine ⟨href.base_eq.symm, fun p hp => ⟨href.quantity_eq .bid p hp, href.quantity_eq .ask p hp⟩,
    fun t p hne => ?_, href.top_eq .bid, href.top_eq .ask, ?_⟩
  · exact ⟨lt_of_le_of_ne (href.nonneg t p) (Ne.symm hne), href.level_ok t p hne⟩
  · rintro pre post u hsplit hu hin hpost hmid
    have hb : b = Run.exec OrderBook.call b₀ (pre ++ .update u :: post) := by rw [← hsplit]
    rw [hb]
    exact Refines.quantity_of_last_update h (hsplit ▸ hcs) hu hin hpost hmid

theorem unitTick_pos : (0 : ℚ) < 1 := by norm_num

/-- A new book of four ticks around 10. -/
def bookAtTen : OrderBook := .fresh none 10 1 4 1 unitTick_pos (by norm_num) (by decide)

theorem create_bookAtTen : OrderBook.create none 10 1 4 1 = .ok bookAtTen := rfl

/-- A bid at 11 and an ask at 11 move its window from 8..11 to 9..12. -/
def callsAtTen : List BookCall :=
  [.update ⟨none, .bid, .add, 11, 2⟩, .update ⟨none, .ask, .update, 11, 5⟩]

theorem callsAtTen_ok : ∀ c ∈ callsAtTen, c.Ok 10 1 := by
  intro c hc
  simp only [callsAtTen, List.mem_cons, List.not_mem_nil, or_false] at hc
  rcases hc with rfl | rfl
  · exact ⟨⟨1, by norm_num⟩, by norm_num⟩
  · exact ⟨⟨1, by norm_num⟩, by norm_num⟩

theorem bookAtTen_refines :
    OrderBook.create none 10 1 4 1 = .ok bookAtTen ∧ (∀ c ∈ callsAtTen, c.Ok 10 1) ∧
      (Run.exec OrderBook.call bookAtTen callsAtTen).basePrice = 11 ∧
      (Run.exec OrderBook.call bookAtTen callsAtTen).getBidQuantity 11 =
        (Run.exec (WindowBook.call (windowShape 1 4 1)) (.init 10) callsAtTen).levels .bid 11 :=
  ⟨rfl, callsAtTen_ok, by decide +kernel,
    ((orderBook_refines_windowBook create_bookAtTen callsAtTen_ok).2.1 11 ⟨1, by norm_num⟩).1⟩

end TradingEngine
