import TradingEngine.OrderBook.Refinement

/-!
# OrderBook/Resync — what a snapshot does to a book that stood elsewhere

`apply_update(snapshot)` clears the levels and keeps the base, so the snapshot is written through
the *old* window.  `placed_exec` says where that window can stand: on the grid, whatever the calls
before.  The tops of the snapshot come through exactly when the old window sees both of them; the
rebase that may follow loses neither.
-/

namespace TradingEngine

open Grid

/-! ## Where a book can stand -/

/-- A book on the grid of `origin`, with consistent sides. -/
structure Placed (origin tick : ℚ) (depth : ℕ) (b : OrderBook) : Prop where
  inv : ∀ t, (b.getSide t).Inv
  tick_eq : b.tickSize = tick
  depth_eq : b.depth = depth
  base_onGrid : OnGrid origin tick b.basePrice

namespace Placed

variable {origin tick : ℚ} {depth : ℕ} {b : OrderBook}

theorem setSideLevel (h : Placed origin tick depth b) (t : OrderBookSideType) (p q : ℚ) :
    Placed origin tick depth (b.setSideLevel t p q) where
  inv t' := by
    rw [OrderBook.getSide_setSideLevel]
    split
    · exact OrderBookSide.inv_setLevel (h.inv t') p q
    · exact h.inv t'
  tick_eq := (b.setSideLevel_tickSize t p q).trans h.tick_eq
  depth_eq := (b.setSideLevel_depth t p q).trans h.depth_eq
  base_onGrid := by
    rw [OrderBook.setSideLevel_basePrice]
    exact h.base_onGrid

theorem setSideLevels (h : Placed origin tick depth b) (t : OrderBookSideType)
    (levels : List OrderBookLevel) : Placed origin tick depth (b.setSideLevels t levels) := by
  induction levels generalizing b with
  | nil => exact h
  | cons l levels ih => exact ih (h.setSideLevel t l.price l.quantity)

theorem reset (h : Placed origin tick depth b) : Placed origin tick depth b.reset where
  inv t := by
    rw [OrderBook.getSide_reset]
    exact OrderBookSide.inv_clear _
  tick_eq := h.tick_eq
  depth_eq := h.depth_eq
  base_onGrid := h.base_onGrid

/-- The best bid is the price of an index, so a rebase stays on the grid even after off-grid
updates. -/
theorem maybeRebase (h : Placed origin tick depth b) : Placed origin tick depth b.maybeRebase := by
  rw [OrderBook.maybeRebase]
  split
  · rename_i hs
    rw [OrderBook.shouldRebase, OrderBook.hasSpread, Bool.and_eq_true, Bool.and_eq_true] at hs
    have hne : b.bids.filled.Nonempty := by
      have htop : b.bids.topIndex ≠ invalidIndex := of_decide_eq_true hs.1.1
      rw [Set.nonempty_iff_ne_empty]
      exact mt (OrderBookSide.topIndex_eq_invalidIndex_iff (h.inv .bid)).mpr htop
    obtain ⟨_, i, _, hp, _⟩ := OrderBookSide.getTop_of_nonempty (h.inv .bid) hne
    have hbest : b.bestBidPrice = b.bids.indexToPrice i := hp
    have hgrid : OnGrid b.basePrice tick b.bestBidPrice := by
      rw [← h.tick_eq, hbest]
      exact b.bids.onGrid_indexToPrice i
    refine ⟨fun t => ?_, ?_, ?_, ?_⟩
    · rw [OrderBook.getSide_moveToNewBasePrice]
      exact OrderBookSide.inv_moveToNewBasePrice _ _
    · exact (OrderBookSide.moveToNewBasePrice_tickSize _ _).trans h.tick_eq
    · exact (OrderBookSide.moveToNewBasePrice_depth _ _).trans h.depth_eq
    · rw [OrderBook.basePrice, OrderBook.moveToNewBasePrice,
        OrderBookSide.moveToNewBasePrice_basePrice]
      exact h.base_onGrid.trans hgrid
  · exact h

theorem call (h : Placed origin tick depth b) (c : BookCall) :
    Placed origin tick depth (b.call c) := by
  cases c with
  | update u =>
    rw [OrderBook.call, OrderBook.applyUpdate, OrderBook.applyUpdateWithoutRebase]
    refine maybeRebase ?_
    split
    · exact h.setSideLevel _ _ _
    · exact h.setSideLevel _ _ _
    · exact h.setSideLevel _ _ _
  | snapshot s => exact ((h.reset.setSideLevels .bid _).setSideLevels .ask _).maybeRebase
  | reset => exact h.reset

/-- **Every reachable book stands on the grid of its first base.** -/
theorem exec {i : Option Instrument} {delta : ℚ} {b₀ : OrderBook}
    (h : OrderBook.create i origin tick depth delta = .ok b₀) (cs : List BookCall) :
    Placed origin tick depth (Run.exec OrderBook.call b₀ cs) := by
  obtain ⟨ht, hd, hle, rfl⟩ := OrderBook.create_eq_ok h
  have h₀ : Refines origin tick depth delta (.fresh i origin tick depth delta ht hd hle)
      ⟨origin, fun _ => 0⟩ := Refines.fresh ht hd hle
  exact Run.exec_of_forall (fun b c hb => hb.call c)
    ⟨h₀.inv, h₀.tick_eq, h₀.depth_eq, h₀.base_onGrid⟩ cs

/-- A cleared book stands for the empty map around its base. -/
theorem refines_reset (h : Placed origin tick depth b) :
    Refines origin tick depth b.rebaseDelta b.reset ⟨b.basePrice, fun _ => 0⟩ where
  inv := h.reset.inv
  tick_eq := h.tick_eq
  depth_eq := h.depth_eq
  delta_eq := rfl
  base_eq := rfl
  base_onGrid := h.base_onGrid
  quantity_eq t p _ := by
    rw [OrderBook.getSide_reset, OrderBookSide.getQuantity_clear]
    rfl
  nonneg _ _ := le_rfl
  level_ok _ _ hne := absurd rfl hne

end Placed

/-! ## The map of a snapshot -/

namespace WindowBook

variable {w : WindowShape ℚ} {a : WindowBook ℚ ℚ} {t : OrderBookSideType}

@[simp] theorem writeAll_base (levels : List OrderBookLevel) :
    (a.writeAll w t levels).base = a.base := by
  induction levels generalizing a with
  | nil => rfl
  | cons l levels ih => exact ih.trans (write_base _ _ _)

/-- Prices that are not written keep their quantity. -/
theorem writeAll_apply_of_notMem {levels : List OrderBookLevel} {t' : OrderBookSideType} {p : ℚ}
    (h : t' = t → ∀ l ∈ levels, l.price ≠ p) :
    (a.writeAll w t levels).levels t' p = a.levels t' p := by
  induction levels generalizing a with
  | nil => rfl
  | cons l levels ih =>
    refine (ih fun ht l' hl' => h ht l' (List.mem_cons_of_mem _ hl')).trans (write_apply_of_ne ?_ _)
    rintro ⟨ht, hp⟩
    exact h ht l List.mem_cons_self hp.symm

/-- **The first of several distinct prices reads back, if the window sees it.** -/
theorem writeAll_cons_apply {l : OrderBookLevel} {levels : List OrderBookLevel}
    (hin : w.inWindow a.base l.price) (hne : ∀ l' ∈ levels, l'.price ≠ l.price) :
    (a.writeAll w t (l :: levels)).levels t l.price = l.quantity :=
  (writeAll_apply_of_notMem fun _ => hne).trans (write_apply_self hin _)

/-- A rebase adds no level. -/
theorem levels_ne_zero_of_rebase {p : ℚ} (h : (a.rebase w).levels t p ≠ 0) : a.levels t p ≠ 0 := by
  by_cases htrig : a.Triggered w
  · obtain ⟨pb, _, hb, _⟩ := id htrig
    rw [rebase_of_triggered htrig hb] at h
    by_cases hin : w.inWindow pb p
    · rwa [moveTo_apply_of_inWindow hin] at h
    · exact absurd (moveTo_apply_of_not_inWindow hin t) h
  · rwa [rebase_of_not_triggered htrig] at h

/-- **A best price survives a rebase, if the new window sees it.** -/
theorem Best.rebase {p : ℚ} (h : a.Best t p) (hin : w.inWindow (a.rebase w).base p) :
    (a.rebase w).Best t p := by
  refine IsBest.mono h (fun p' hp' => levels_ne_zero_of_rebase hp') ?_
  rw [Set.mem_ofPred_eq, rebase_apply_of_inWindow hin]
  exact IsBest.mem h

end WindowBook

/-! ## Snapshots that state a proper book -/

/-- **A proper snapshot**: both sides nonempty with tops `bid` and `ask`, levels strictly ordered on
the grid with positive quantities, not crossed, and a spread of less than half the depth. -/
structure Proper (origin tick : ℚ) (depth : ℕ) (s : OrderBookSnapShot)
    (bid ask : OrderBookLevel) : Prop where
  head_bid : s.bidLevels.head? = some bid
  head_ask : s.askLevels.head? = some ask
  bids_sorted : s.bidLevels.Pairwise fun l l' => l'.price < l.price
  asks_sorted : s.askLevels.Pairwise fun l l' => l.price < l'.price
  level_ok : ∀ l ∈ s.bidLevels ++ s.askLevels, OnGrid origin tick l.price ∧ 0 < l.quantity
  not_crossed : bid.price < ask.price
  spread_lt : ask.price - bid.price < depth / 2 * tick

namespace Proper

variable {origin tick : ℚ} {depth : ℕ} {s : OrderBookSnapShot} {bid ask : OrderBookLevel}

theorem bid_mem (h : Proper origin tick depth s bid ask) : bid ∈ s.bidLevels :=
  List.mem_of_mem_head? h.head_bid

theorem ask_mem (h : Proper origin tick depth s bid ask) : ask ∈ s.askLevels :=
  List.mem_of_mem_head? h.head_ask

theorem bid_ok (h : Proper origin tick depth s bid ask) :
    OnGrid origin tick bid.price ∧ 0 < bid.quantity := h.level_ok bid (by simp [h.bid_mem])

theorem ask_ok (h : Proper origin tick depth s bid ask) :
    OnGrid origin tick ask.price ∧ 0 < ask.quantity := h.level_ok ask (by simp [h.ask_mem])

/-- A window centred on the best bid sees both tops. -/
theorem inWindow_tops (h : Proper origin tick depth s bid ask) (ht : 0 < tick) (hd : 0 < depth) :
    InWindow tick depth bid.price bid.price ∧ InWindow tick depth bid.price ask.price := by
  obtain ⟨k, hk⟩ := h.bid_ok.1.rebase h.ask_ok.1
  have hpos : (0 : ℚ) < k * tick := by linarith [h.not_crossed]
  have hk0 : (0 : ℤ) < k := by exact_mod_cast pos_of_mul_pos_left hpos ht.le
  have hlt : (k : ℚ) < depth / 2 := by
    have := h.spread_lt
    rw [hk, add_sub_cancel_left] at this
    exact lt_of_mul_lt_mul_right this ht.le
  have hk2 : 2 * k < (depth : ℤ) := by
    have : 2 * (k : ℚ) < depth := by linarith
    exact_mod_cast this
  constructor
  · have := (inWindow_offset_iff ht hd bid.price 0).mpr (by omega)
    simpa using this
  · rw [hk]
    exact (inWindow_offset_iff ht hd bid.price k).mpr (by omega)

end Proper

/-! ## Where the tops of a snapshot end up -/

section Load

variable {origin tick : ℚ} {depth : ℕ} {s : OrderBookSnapShot} {bid ask : OrderBookLevel}
  {w : WindowShape ℚ} {base : ℚ}

/-- The map of a snapshot written around `base`. -/
noncomputable def loadedMap (w : WindowShape ℚ) (base : ℚ) (s : OrderBookSnapShot) :
    WindowBook ℚ ℚ :=
  ((⟨base, fun _ => 0⟩ : WindowBook ℚ ℚ).writeAll w .bid s.bidLevels).writeAll w .ask s.askLevels

@[simp] theorem loadedMap_base : (loadedMap w base s).base = base := by simp [loadedMap]

theorem loadedMap_bid_apply (p : ℚ) :
    (loadedMap w base s).levels .bid p =
      ((⟨base, fun _ => 0⟩ : WindowBook ℚ ℚ).writeAll w .bid s.bidLevels).levels .bid p :=
  WindowBook.writeAll_apply_of_notMem fun ht => nomatch ht

theorem loadedMap_ask_apply_of_notMem {p : ℚ} (h : ∀ l ∈ s.askLevels, l.price ≠ p) :
    (loadedMap w base s).levels .ask p = 0 := by
  refine (WindowBook.writeAll_apply_of_notMem fun _ => h).trans ?_
  exact WindowBook.writeAll_apply_of_notMem fun ht => nomatch ht

/-- **The best bid of a snapshot is the best bid of its map, if the window sees it.** -/
theorem Proper.best_bid (h : Proper origin tick depth s bid ask) (hin : w.inWindow base bid.price) :
    (loadedMap w base s).Best .bid bid.price ∧
      (loadedMap w base s).levels .bid bid.price = bid.quantity := by
  obtain ⟨bids, hbids⟩ : ∃ bids, s.bidLevels = bid :: bids :=
    ⟨_, (List.cons_head?_tail h.head_bid).symm⟩
  have hlt : ∀ l ∈ bids, l.price < bid.price := (List.pairwise_cons.mp (hbids ▸ h.bids_sorted)).1
  have hread : (loadedMap w base s).levels .bid bid.price = bid.quantity := by
    rw [loadedMap_bid_apply, hbids]
    exact WindowBook.writeAll_cons_apply hin fun l hl => (hlt l hl).ne
  refine ⟨⟨?_, fun p hp => ?_⟩, hread⟩
  · rw [Set.mem_ofPred_eq, hread]
    exact h.bid_ok.2.ne'
  · by_contra hgt
    refine hp ?_
    rw [loadedMap_bid_apply, hbids]
    refine WindowBook.writeAll_apply_of_notMem fun _ l hl => ?_
    rcases List.mem_cons.mp hl with rfl | hl
    · exact (not_le.mp hgt).ne
    · exact ((hlt l hl).trans (not_le.mp hgt)).ne

/-- **…and likewise the best ask.** -/
theorem Proper.best_ask (h : Proper origin tick depth s bid ask) (hin : w.inWindow base ask.price) :
    (loadedMap w base s).Best .ask ask.price ∧
      (loadedMap w base s).levels .ask ask.price = ask.quantity := by
  obtain ⟨asks, hasks⟩ : ∃ asks, s.askLevels = ask :: asks :=
    ⟨_, (List.cons_head?_tail h.head_ask).symm⟩
  have hlt : ∀ l ∈ asks, ask.price < l.price := (List.pairwise_cons.mp (hasks ▸ h.asks_sorted)).1
  have hread : (loadedMap w base s).levels .ask ask.price = ask.quantity := by
    rw [loadedMap, hasks]
    exact WindowBook.writeAll_cons_apply (by simpa using hin) fun l hl => (hlt l hl).ne'
  refine ⟨⟨?_, fun p hp => ?_⟩, hread⟩
  · rw [Set.mem_ofPred_eq, hread]
    exact h.ask_ok.2.ne'
  · by_contra hgt
    refine hp (loadedMap_ask_apply_of_notMem fun l hl => ?_)
    rcases List.mem_cons.mp (hasks ▸ hl) with rfl | hl
    · exact (not_le.mp hgt).ne'
    · exact ((not_le.mp hgt).trans (hlt l hl)).ne'

/-- The book after a snapshot stands for the rebased map of the snapshot. -/
theorem Placed.refines_applySnapshot {b : OrderBook} (hb : Placed origin tick depth b)
    (h : Proper origin tick depth s bid ask) :
    Refines origin tick depth b.rebaseDelta (b.loadSnapshot s)
        (loadedMap (windowShape tick depth b.rebaseDelta) b.basePrice s) ∧
      Refines origin tick depth b.rebaseDelta (b.applySnapshot s)
        ((loadedMap (windowShape tick depth b.rebaseDelta) b.basePrice s).rebase
          (windowShape tick depth b.rebaseDelta)) := by
  have hok : ∀ l ∈ s.bidLevels ++ s.askLevels, OnGrid origin tick l.price ∧ 0 ≤ l.quantity :=
    fun l hl => ⟨(h.level_ok l hl).1, (h.level_ok l hl).2.le⟩
  have hload : Refines origin tick depth b.rebaseDelta (b.loadSnapshot s)
      (loadedMap (windowShape tick depth b.rebaseDelta) b.basePrice s) :=
    (hb.refines_reset.setSideLevels .bid fun l hl =>
      hok l (List.mem_append_left _ hl)).setSideLevels
        .ask fun l hl => hok l (List.mem_append_right _ hl)
  exact ⟨hload, hload.maybeRebase⟩

end Load

/-- A book whose two tops are `bid` and `ask`. -/
def OrderBook.TopsAre (b : OrderBook) (bid ask : OrderBookLevel) : Prop :=
  b.bestBidPrice = bid.price ∧ b.bestBidQuantity = bid.quantity ∧
    b.bestAskPrice = ask.price ∧ b.bestAskQuantity = ask.quantity

instance (b : OrderBook) (bid ask : OrderBookLevel) : Decidable (b.TopsAre bid ask) :=
  inferInstanceAs (Decidable (_ ∧ _))

variable {origin tick : ℚ} {depth : ℕ} {s : OrderBookSnapShot} {bid ask : OrderBookLevel}
  {b : OrderBook}

/-- A top that the book reports with a positive quantity is a level of its map. -/
theorem Refines.levels_ne_zero_of_top {delta : ℚ} {a : WindowBook ℚ ℚ}
    (h : Refines origin tick depth delta b a) {t : OrderBookSideType} {l : OrderBookLevel}
    (hl : 0 < l.quantity) (hp : (b.getSide t).getTopPrice = l.price)
    (hq : (b.getSide t).getTopQuantity = l.quantity) : a.levels t l.price ≠ 0 := by
  have htop : (b.getSide t).hasTop = true := by
    rw [h.hasTop_iff, Set.nonempty_iff_ne_empty]
    intro hempty
    rw [(OrderBookSide.getTop_of_empty (h.inv t) hempty).2] at hq
    exact hl.ne hq
  rw [← hp]
  exact IsBest.mem (h.best_getTopPrice htop)

/-- The reported top is the best price of the map, with its quantity. -/
theorem Refines.getTop_eq {delta : ℚ} {a : WindowBook ℚ ℚ}
    (h : Refines origin tick depth delta b a) {t : OrderBookSideType} {p : ℚ} (hp : a.Best t p) :
    (b.getSide t).getTopPrice = p ∧ (b.getSide t).getTopQuantity = a.levels t p := by
  have htop := h.hasTop_of_best hp
  obtain rfl : p = (b.getSide t).getTopPrice := hp.unique (h.best_getTopPrice htop)
  exact ⟨rfl, ((h.top_eq t).2 htop).2⟩

/-- **If the old window sees both tops, they come through**, rebased or not. -/
theorem Placed.topsAre_of_validPrice (hb : Placed origin tick depth b)
    (h : Proper origin tick depth s bid ask) (hbid : b.bids.validPrice bid.price = true)
    (hask : b.asks.validPrice ask.price = true) : (b.applySnapshot s).TopsAre bid ask := by
  have htick : 0 < tick := hb.tick_eq ▸ b.bids.tick_pos
  have hdepth : 0 < depth := hb.depth_eq ▸ b.bids.depth_pos
  have href₀ := hb.refines_reset
  set w := windowShape tick depth b.rebaseDelta with hw
  set a := loadedMap w b.basePrice s with ha
  obtain ⟨-, href⟩ := hb.refines_applySnapshot h
  have hwin : ∀ t p, OnGrid origin tick p → (b.getSide t).validPrice p = true →
      w.inWindow a.base p := by
    intro t p hp hv
    have hgrid : (b.reset.getSide t).OnGrid p := (href₀.onGrid_iff t p).mpr hp
    rw [OrderBook.getSide_reset] at hgrid
    have := (OrderBookSide.validPrice_iff (b.getSide t) hgrid).mp hv
    rw [OrderBookSide.Window, b.getSide_basePrice, b.getSide_tickSize, b.getSide_depth, hb.tick_eq,
      hb.depth_eq] at this
    rw [ha, loadedMap_base]
    exact this
  have hinb := hwin .bid bid.price h.bid_ok.1 hbid
  have hina := hwin .ask ask.price h.ask_ok.1 hask
  rw [ha, loadedMap_base] at hinb hina
  obtain ⟨hbestb, hqb⟩ := h.best_bid hinb
  obtain ⟨hbesta, hqa⟩ := h.best_ask hina
  -- a rebase, if any, centres the window on the best bid, which sees both tops
  have hin' : w.inWindow (a.rebase w).base bid.price ∧ w.inWindow (a.rebase w).base ask.price := by
    by_cases htrig : a.Triggered w
    · rw [WindowBook.rebase_of_triggered htrig hbestb]
      exact h.inWindow_tops htick hdepth
    · rw [WindowBook.rebase_of_not_triggered htrig, ha, loadedMap_base]
      exact ⟨hinb, hina⟩
  obtain ⟨hpb, hqb'⟩ := href.getTop_eq (hbestb.rebase hin'.1)
  obtain ⟨hpa, hqa'⟩ := href.getTop_eq (hbesta.rebase hin'.2)
  rw [WindowBook.rebase_apply_of_inWindow hin'.1, hqb] at hqb'
  rw [WindowBook.rebase_apply_of_inWindow hin'.2, hqa] at hqa'
  exact ⟨hpb, hqb', hpa, hqa'⟩

/-- **A top that comes through was seen by the old window** — a rebase only erases. -/
theorem Placed.validPrice_of_top (hb : Placed origin tick depth b)
    (h : Proper origin tick depth s bid ask) {t : OrderBookSideType} {l : OrderBookLevel}
    (hl : OnGrid origin tick l.price ∧ 0 < l.quantity)
    (hp : ((b.applySnapshot s).getSide t).getTopPrice = l.price)
    (hq : ((b.applySnapshot s).getSide t).getTopQuantity = l.quantity) :
    (b.getSide t).validPrice l.price = true := by
  obtain ⟨hload, href⟩ := hb.refines_applySnapshot h
  have hlevel := WindowBook.levels_ne_zero_of_rebase (href.levels_ne_zero_of_top hl.2 hp hq)
  have hin := (hload.level_ok t l.price hlevel).2
  rw [loadedMap_base] at hin
  have hgrid : (b.getSide t).OnGrid l.price := by
    rw [OrderBookSide.OnGrid, b.getSide_basePrice, b.getSide_tickSize, hb.tick_eq]
    exact hb.base_onGrid.rebase hl.1
  rw [OrderBookSide.validPrice_iff _ hgrid, OrderBookSide.Window, b.getSide_basePrice,
    b.getSide_tickSize, b.getSide_depth, hb.tick_eq, hb.depth_eq]
  exact hin

/-- **A proper snapshot resynchronises a reachable book exactly when the window in which the book
stood sees both of its tops.** -/
theorem resync_iff_validPrice {i : Option Instrument} {delta : ℚ} {b₀ : OrderBook}
    (h₀ : OrderBook.create i origin tick depth delta = .ok b₀) (cs : List BookCall)
    (h : Proper origin tick depth s bid ask) :
    let b := Run.exec OrderBook.call b₀ cs
    (b.applySnapshot s).TopsAre bid ask ↔
      b.bids.validPrice bid.price = true ∧ b.asks.validPrice ask.price = true := by
  intro b
  have hb : Placed origin tick depth b := Placed.exec h₀ cs
  constructor
  · rintro ⟨hpb, hqb, hpa, hqa⟩
    exact ⟨hb.validPrice_of_top (t := .bid) h h.bid_ok hpb hqb,
      hb.validPrice_of_top (t := .ask) h h.ask_ok hpa hqa⟩
  · rintro ⟨hbid, hask⟩
    exact hb.topsAre_of_validPrice h hbid hask

/-! ## A book on eight ticks around 100 -/

/-- A new book of eight ticks around 100. -/
def bookAtHundred : OrderBook :=
  .fresh none 100 1 8 (4 / 5) unitTick_pos (by norm_num) (by decide)

theorem create_bookAtHundred : OrderBook.create none 100 1 8 (4 / 5) = .ok bookAtHundred := rfl

/-- A snapshot inside its window… -/
def nearSnapshot : OrderBookSnapShot := .ofLevels none [⟨99, 3⟩, ⟨98, 1⟩] [⟨101, 2⟩]

/-- …and one a hundred ticks away. -/
def farSnapshot : OrderBookSnapShot := .ofLevels none [⟨200, 3⟩, ⟨199, 1⟩] [⟨201, 2⟩]

theorem proper_nearSnapshot : Proper 100 1 8 nearSnapshot ⟨99, 3⟩ ⟨101, 2⟩ where
  head_bid := rfl
  head_ask := rfl
  bids_sorted := by
    simp only [nearSnapshot, OrderBookSnapShot.bidLevels_ofLevels]
    decide +kernel
  asks_sorted := by simp [nearSnapshot]
  level_ok := by
    simp only [nearSnapshot, OrderBookSnapShot.bidLevels_ofLevels,
      OrderBookSnapShot.askLevels_ofLevels]
    rintro l hl
    simp only [List.cons_append, List.nil_append, List.mem_cons, List.not_mem_nil, or_false] at hl
    rcases hl with rfl | rfl | rfl
    · exact ⟨⟨-1, by norm_num⟩, by norm_num⟩
    · exact ⟨⟨-2, by norm_num⟩, by norm_num⟩
    · exact ⟨⟨1, by norm_num⟩, by norm_num⟩
  not_crossed := by norm_num
  spread_lt := by norm_num

theorem proper_farSnapshot : Proper 100 1 8 farSnapshot ⟨200, 3⟩ ⟨201, 2⟩ where
  head_bid := rfl
  head_ask := rfl
  bids_sorted := by
    simp only [farSnapshot, OrderBookSnapShot.bidLevels_ofLevels]
    decide +kernel
  asks_sorted := by simp [farSnapshot]
  level_ok := by
    simp only [farSnapshot, OrderBookSnapShot.bidLevels_ofLevels,
      OrderBookSnapShot.askLevels_ofLevels]
    rintro l hl
    simp only [List.cons_append, List.nil_append, List.mem_cons, List.not_mem_nil, or_false] at hl
    rcases hl with rfl | rfl | rfl
    · exact ⟨⟨100, by norm_num⟩, by norm_num⟩
    · exact ⟨⟨99, by norm_num⟩, by norm_num⟩
    · exact ⟨⟨101, by norm_num⟩, by norm_num⟩
  not_crossed := by norm_num
  spread_lt := by norm_num

/-- The near snapshot comes through. -/
theorem near_snapshot_resyncs :
    OrderBook.create none 100 1 8 (4 / 5) = .ok bookAtHundred ∧
      (bookAtHundred.applySnapshot nearSnapshot).TopsAre ⟨99, 3⟩ ⟨101, 2⟩ :=
  ⟨rfl, (resync_iff_validPrice create_bookAtHundred [] proper_nearSnapshot).mpr
    (by decide +kernel)⟩

/-- The far one is lost: a book that has seen the near snapshot ends up with no bid at all. -/
theorem far_snapshot_lost :
    OrderBook.create none 100 1 8 (4 / 5) = .ok bookAtHundred ∧
      Proper 100 1 8 farSnapshot ⟨200, 3⟩ ⟨201, 2⟩ ∧
      let b := Run.exec OrderBook.call bookAtHundred [.snapshot nearSnapshot]
      (b.applySnapshot farSnapshot).hasBestBid = false ∧
        ¬ (b.applySnapshot farSnapshot).TopsAre ⟨200, 3⟩ ⟨201, 2⟩ :=
  ⟨rfl, proper_farSnapshot, by decide +kernel⟩

end TradingEngine
