import TradingEngine.BuySpot.StateRun
import TradingEngine.Machinery.Run

/-!
# BuySpot/BuyPoints — the life of a buy point

A point that is available or held has no order, and holds nothing or something.  `Moves` says what a
price update may do to a point, with the requests about it; it composes, so it is shown for each of
the loops.  The loop over the sell orders cancels whatever lies above the highest hold price, be it
placed or not, and an order update without a point reads through null: along every run the points
behave exactly when neither happens (`along_buyPoints_iff`).
-/

namespace TradingEngine

namespace BuyPoint

/-- **What the status of a point says.** -/
structure Valid (b : BuyPoint) : Prop where
  available : b.status = .available → b.quantity = 0 ∧ b.currentOrderId = 0
  hold : b.status = .hold → 0 < b.quantity ∧ b.currentOrderId = 0

/-- …where nothing was ever bought in a negative quantity. -/
structure Inv (b : BuyPoint) : Prop extends b.Valid where
  nonneg : 0 ≤ b.quantity

variable {b : BuyPoint}

theorem inv_of_available (h : b.status = .available) (hquantity : b.quantity = 0)
    (hid : b.currentOrderId = 0) : b.Inv where
  available := fun _ => ⟨hquantity, hid⟩
  hold := fun h' => by rw [h] at h'; cases h'
  nonneg := hquantity.ge

theorem inv_of_hold (h : b.status = .hold) (hquantity : 0 < b.quantity)
    (hid : b.currentOrderId = 0) : b.Inv where
  available := fun h' => by rw [h] at h'; cases h'
  hold := fun _ => ⟨hquantity, hid⟩
  nonneg := hquantity.le

/-- A point between the two has nothing to say. -/
theorem inv_of_ne (havailable : b.status ≠ .available) (hhold : b.status ≠ .hold)
    (hquantity : 0 ≤ b.quantity) : b.Inv where
  available := fun h => absurd h havailable
  hold := fun h => absurd h hhold
  nonneg := hquantity

/-- **What a price update may do to a point**, asking for the requests of `R`: a point is cancelled
with its own order when that is placed, and bought or sold as its quantity says. -/
structure Moves (b b' : BuyPoint) (R : OrderRequest → Prop) : Prop where
  inv : b'.Inv
  quantity_eq : b'.quantity = b.quantity
  placed : b'.status = .placed → b.status = .placed ∧ b'.currentOrderId = b.currentOrderId
  canceling : b'.status = .canceling → b.status = .canceling ∨
    b.status = .placed ∧ ∃ o, R (.cancel o) ∧ o.orderId = b.currentOrderId
  buy : ∀ o, R (.place o) → o.side = .buy → b.quantity = 0
  sell : ∀ o, R (.place o) → o.side = .sell → 0 < b.quantity

namespace Moves

variable {b b' b'' : BuyPoint} {R R' : OrderRequest → Prop}

/-- A point is left alone. -/
theorem refl (h : b.Inv) (hR : ∀ r, ¬ R r) : Moves b b R where
  inv := h
  quantity_eq := rfl
  placed := fun h => ⟨h, rfl⟩
  canceling := .inl
  buy := fun _ ho => absurd ho (hR _)
  sell := fun _ ho => absurd ho (hR _)

/-- **One loop after the other.** -/
theorem trans (h : Moves b b' R) (h' : Moves b' b'' R') : Moves b b'' fun r => R r ∨ R' r where
  inv := h'.inv
  quantity_eq := h'.quantity_eq.trans h.quantity_eq
  placed := fun hplaced => by
    obtain ⟨hplaced', hid⟩ := h'.placed hplaced
    obtain ⟨hplaced'', hid'⟩ := h.placed hplaced'
    exact ⟨hplaced'', hid.trans hid'⟩
  canceling := fun hcanceling => by
    rcases h'.canceling hcanceling with hcanceling' | ⟨hplaced, o, ho, hid⟩
    · refine (h.canceling hcanceling').imp_right fun ⟨hplaced, o, ho, hid⟩ => ?_
      exact ⟨hplaced, o, .inl ho, hid⟩
    · obtain ⟨hplaced', hid'⟩ := h.placed hplaced
      exact .inr ⟨hplaced', o, .inr ho, hid.trans hid'⟩
  buy := fun o ho hside => ho.elim (fun ho => h.buy o ho hside) fun ho =>
    h.quantity_eq.symm.trans (h'.buy o ho hside)
  sell := fun o ho hside => ho.elim (fun ho => h.sell o ho hside) fun ho =>
    (h'.sell o ho hside).trans_eq h.quantity_eq

theorem congr (h : Moves b b' R) (hR : ∀ r, R' r ↔ R r) : Moves b b' R' := by
  obtain rfl : R' = R := funext fun r => propext (hR r)
  exact h

end Moves

/-- An available point is placed. -/
theorem moves_placing {b : BuyPoint} {R : OrderRequest → Prop} (h : b.Inv)
    (hstatus : b.status = .available) (hR : ∀ r, R r → ∃ o, r = .place o ∧ o.side = .buy) :
    Moves b { b with status := .placing } R where
  inv := inv_of_ne (by simp) (by simp) h.nonneg
  quantity_eq := rfl
  placed := fun h => by cases h
  canceling := fun h => by cases h
  buy := fun _ _ _ => (h.available hstatus).1
  sell := fun o ho hside => by
    obtain ⟨o', heq, hbuy⟩ := hR _ ho
    cases heq
    rw [hbuy] at hside
    cases hside

/-- A held point is placed. -/
theorem moves_selling {b : BuyPoint} {R : OrderRequest → Prop} (h : b.Inv)
    (hstatus : b.status = .hold) (hR : ∀ r, R r → ∃ o, r = .place o ∧ o.side = .sell) :
    Moves b { b with status := .placing } R where
  inv := inv_of_ne (by simp) (by simp) h.nonneg
  quantity_eq := rfl
  placed := fun h => by cases h
  canceling := fun h => by cases h
  buy := fun o ho hside => by
    obtain ⟨o', heq, hsell⟩ := hR _ ho
    cases heq
    rw [hsell] at hside
    cases hside
  sell := fun _ _ _ => (h.hold hstatus).1

/-- A placed point, or one that is being cancelled, is cancelled. -/
theorem moves_canceling {b : BuyPoint} {R : OrderRequest → Prop} {order : Order} (h : b.Inv)
    (hstatus : b.status = .placed ∨ b.status = .canceling) (hid : order.orderId = b.currentOrderId)
    (hR : ∀ r, R r ↔ r = .cancel order) : Moves b { b with status := .canceling } R where
  inv := inv_of_ne (by simp) (by simp) h.nonneg
  quantity_eq := rfl
  placed := fun h => by cases h
  canceling := fun _ => hstatus.symm.imp_right fun hplaced =>
    ⟨hplaced, order, (hR _).mpr rfl, hid⟩
  buy := fun o ho => by cases (hR _).mp ho
  sell := fun o ho => by cases (hR _).mp ho

/-- A point with an order that the exchange knows, or did until a moment ago. -/
def Busy (b : BuyPoint) : Prop := b.status = .placed ∨ b.status = .canceling

/-- **What an order makes of its point.** -/
theorem Inv.handleOrderUpdate {order : Order} (h : b.Inv)
    (hfill : order.status = .filled → order.side = .buy → 0 < order.quantity) :
    (b.handleOrderUpdate order).Inv := by
  rw [BuyPoint.handleOrderUpdate]
  split
  · exact inv_of_ne (by simp) (by simp) h.nonneg
  · split
    · rename_i hfilled
      split
      · rename_i hside
        exact inv_of_hold rfl (hfill hfilled hside) rfl
      · exact inv_of_available rfl rfl rfl
    · split
      · by_cases hzero : b.quantity = 0
        · exact inv_of_available (by simp [hzero]) hzero rfl
        · exact inv_of_hold (by simp [hzero]) (h.nonneg.lt_of_ne' hzero) rfl
      · exact h

/-- An order never makes a point one to be cancelled. -/
theorem status_handleOrderUpdate {order : Order}
    (h : (b.handleOrderUpdate order).status = .canceling) : b.status = .canceling := by
  rw [BuyPoint.handleOrderUpdate] at h
  split at h
  · cases h
  · split at h
    · split at h
      · cases h
      · cases h
    · split at h
      · dsimp only at h
        split at h
        · cases h
        · cases h
      · exact h

end BuyPoint

namespace StrategyBuySpotStateRun

open BuyPoint

variable {s s' : StrategyBuySpotStateRun} {newId : ℚ → OrderId} {p : ℚ}

/-- Every point keeps what its status says. -/
def Inv (s : StrategyBuySpotStateRun) : Prop := ∀ p ∈ s.prices, (s.buyPoint p).Inv

/-- A loop over the points, with its requests. -/
structure Moved (s s' : StrategyBuySpotStateRun) (rs : List (ℚ × OrderRequest)) : Prop where
  prices_eq : s'.prices = s.prices
  config_eq : s'.config = s.config
  moves : ∀ p ∈ s.prices, Moves (s.buyPoint p) (s'.buyPoint p) fun r => (p, r) ∈ rs

theorem Moved.inv {rs : List (ℚ × OrderRequest)} (h : Moved s s' rs) : s'.Inv := fun p hp =>
  (h.moves p (h.prices_eq ▸ hp)).inv

theorem Moved.trans {s'' : StrategyBuySpotStateRun} {rs rs' : List (ℚ × OrderRequest)}
    (h : Moved s s' rs) (h' : Moved s' s'' rs') : Moved s s'' (rs ++ rs') where
  prices_eq := h'.prices_eq.trans h.prices_eq
  config_eq := h'.config_eq.trans h.config_eq
  moves := fun p hp => ((h.moves p hp).trans (h'.moves p (h.prices_eq ▸ hp))).congr fun _ =>
    List.mem_append

/-- A loop that does to each point what it may. -/
theorem moved_forEach (s : StrategyBuySpotStateRun) {visit : BuyPointVisit}
    (hvisit : ∀ p ∈ s.prices, Moves (s.buyPoint p) (visit p (s.buyPoint p)).1
      (· ∈ (visit p (s.buyPoint p)).2)) :
    Moved s (s.forEach visit).1 (s.forEach visit).2 where
  prices_eq := rfl
  config_eq := rfl
  moves := fun p hp => by
    have hpoint : (s.forEach visit).1.buyPoint p = (visit p (s.buyPoint p)).1 := if_pos hp
    rw [hpoint]
    refine (hvisit p hp).congr fun r => ?_
    simp only [forEach, List.mem_flatMap, List.mem_map, Prod.mk.injEq]
    constructor
    · rintro ⟨q, -, r', hr', rfl, rfl⟩
      exact hr'
    · exact fun hr => ⟨p, hp, r, hr, rfl, rfl⟩

/-! ## The buy orders -/

/-- What the first loop of `update_buy_orders` makes of a point. -/
theorem placeBuyOrders_spec (newId : ℚ → OrderId) {prices : List ℚ} (hinv : s.Inv)
    (hprices : ∀ p ∈ prices, p ∈ s.prices) :
    ∃ s' rs, placeBuyOrders newId prices s = some (s', rs) ∧ Moved s s' rs ∧
      ∀ p, s'.buyPoint p = s.buyPoint p ∨
        (s.buyPoint p).status = .available ∧ (s'.buyPoint p).status = .placing := by
  induction prices generalizing s with
  | nil =>
    refine ⟨s, [], rfl, ⟨rfl, rfl, fun p hp => ?_⟩, fun p => .inl rfl⟩
    exact Moves.refl (hinv p hp) fun r => List.not_mem_nil
  | cons price prices ih =>
    obtain ⟨hprice, hprices⟩ := List.forall_mem_cons.mp hprices
    have hpoint : s.getBuyPointByPrice price = some (s.buyPoint price) := if_pos hprice
    rw [placeBuyOrders, hpoint]
    by_cases hstatus : (s.buyPoint price).status = .available
    · have hmoved : Moved s (s.setBuyPoint price { s.buyPoint price with status := .placing })
          [(price, .place (s.getLimitBuySpotOrderByPrice (newId price) price))] := by
        refine ⟨rfl, rfl, fun p hp => ?_⟩
        rcases eq_or_ne p price with rfl | hne
        · rw [buyPoint_setBuyPoint, if_pos rfl]
          refine moves_placing (hinv p hp) hstatus fun r hr => ?_
          exact ⟨_, (Prod.mk.inj (List.mem_singleton.mp hr)).2, rfl⟩
        · rw [buyPoint_setBuyPoint, if_neg hne]
          refine Moves.refl (hinv p hp) fun r hr => hne ?_
          exact (Prod.mk.inj (List.mem_singleton.mp hr)).1
      obtain ⟨s', rs, hplace, hmoved', hpoints⟩ := ih hmoved.inv hprices
      refine ⟨s', _, by simp only [if_pos hstatus, hplace]; rfl, hmoved.trans hmoved', fun p => ?_⟩
      have hset := hpoints p
      rw [buyPoint_setBuyPoint] at hset
      rcases eq_or_ne p price with rfl | hne
      · rw [if_pos rfl] at hset
        rcases hset with heq | ⟨havailable, -⟩
        · exact .inr ⟨hstatus, by rw [heq]⟩
        · cases havailable
      · rwa [if_neg hne] at hset
    · simp only [if_neg hstatus]
      exact ih hinv hprices

/-- **What `update_buy_orders` does**: what is held stays so, and what is busy too. -/
theorem updateBuyOrders_spec (newId : ℚ → OrderId) (hinv : s.Inv)
    (hladder : ∀ p ∈ s.ladder, p ∈ s.prices) :
    ∃ s' rs, s.updateBuyOrders newId = some (s', rs) ∧ Moved s s' rs ∧
      ∀ p, ((s'.buyPoint p).status = .hold ↔ (s.buyPoint p).status = .hold) ∧
        (Busy (s.buyPoint p) → Busy (s'.buyPoint p)) := by
  obtain ⟨s', rs, hplace, hmoved, hpoints⟩ := placeBuyOrders_spec newId hinv hladder
  have hcanceled := @moved_forEach s' (s.cancelLowBuyOrder s.minPriceToPlace) fun p hp => by
    have hp' := hmoved.inv p hp
    rw [cancelLowBuyOrder]
    split
    · rename_i hlow
      exact moves_canceling hp' (.inl hlow.2.1) rfl fun r => List.mem_singleton
    · exact Moves.refl hp' fun r => List.not_mem_nil
  refine ⟨_, _, by rw [updateBuyOrders, hplace]; rfl, hmoved.trans hcanceled, fun p => ?_⟩
  have hcancel : (s'.forEach (s.cancelLowBuyOrder s.minPriceToPlace)).1.buyPoint p = s'.buyPoint p ∨
      (s'.buyPoint p).status = .placed ∧
        ((s'.forEach (s.cancelLowBuyOrder s.minPriceToPlace)).1.buyPoint p).status = .canceling := by
    rw [buyPoint_forEach, cancelLowBuyOrder]
    split
    · split
      · rename_i hlow
        exact .inr ⟨hlow.2.1, rfl⟩
      · exact .inl rfl
    · exact .inl rfl
  rw [Busy, Busy]
  rcases hpoints p with heq | ⟨havailable, hplacing⟩
  · rw [← heq]
    rcases hcancel with heq' | ⟨hplaced, hcanceling⟩
    · rw [heq']
      exact ⟨Iff.rfl, id⟩
    · simp [hplaced, hcanceling]
  · rcases hcancel with heq' | ⟨hplaced, -⟩
    · simp [heq', havailable, hplacing]
    · rw [hplacing] at hplaced
      cases hplaced

/-! ## The sell orders -/

/-- The prices that are held depend on which points are. -/
theorem holdBuyPointsPrices_congr (hprices : s'.prices = s.prices) (hconfig : s'.config = s.config)
    (hhold : ∀ p, (s'.buyPoint p).status = .hold ↔ (s.buyPoint p).status = .hold) :
    s'.holdBuyPointsPrices = s.holdBuyPointsPrices := by
  simp only [holdBuyPointsPrices, hprices, hconfig, hhold]

/-- A loop over the sell orders, if something is held. -/
theorem updateSellOrders_of_mem {high : ℚ} (hhigh : high ∈ s.holdBuyPointsPrices.getLast?) :
    ∃ low, s.updateSellOrders newId = s.forEach (s.updateSellOrder newId low high) := by
  rw [updateSellOrders, Option.mem_def.mp hhigh]
  cases hlow : s.holdBuyPointsPrices.head? with
  | none =>
    rw [List.head?_eq_none_iff.mp hlow] at hhigh
    cases hhigh
  | some low => exact ⟨low, rfl⟩

theorem prices_updateSellOrders (s : StrategyBuySpotStateRun) (newId : ℚ → OrderId) :
    (s.updateSellOrders newId).1.prices = s.prices := by
  rw [updateSellOrders]
  split <;> rfl

/-- **Every point above the highest hold price is cancelled.** -/
theorem updateSellOrders_above {high : ℚ} (hhigh : high ∈ s.holdBuyPointsPrices.getLast?)
    (hp : p ∈ s.prices) (hlt : high < p) :
    ((s.updateSellOrders newId).1.buyPoint p).status = .canceling := by
  obtain ⟨low, hloop⟩ := @updateSellOrders_of_mem s newId _ hhigh
  rw [hloop, buyPoint_forEach, if_pos hp, updateSellOrder, if_neg fun h => h.2.2.not_gt hlt,
    if_pos (.inr hlt)]

/-- **The loop is right** if these are busy. -/
theorem moved_updateSellOrders (hinv : s.Inv)
    (habove : ∀ high ∈ s.holdBuyPointsPrices.getLast?, ∀ p ∈ s.prices, high < p →
      Busy (s.buyPoint p)) :
    Moved s (s.updateSellOrders newId).1 (s.updateSellOrders newId).2 := by
  cases hlast : s.holdBuyPointsPrices.getLast? with
  | none =>
    rw [updateSellOrders, hlast]
    have hnil : s.holdBuyPointsPrices = [] := List.getLast?_eq_none_iff.mp hlast
    rw [hnil]
    exact ⟨rfl, rfl, fun p hp => Moves.refl (hinv p hp) fun r => List.not_mem_nil⟩
  | some high =>
    obtain ⟨low, hloop⟩ := @updateSellOrders_of_mem s newId _ hlast
    rw [hloop]
    refine s.moved_forEach fun p hp => ?_
    rw [updateSellOrder]
    split
    · rename_i hhold
      exact moves_selling (hinv p hp) hhold.1 fun r hr => ⟨_, List.mem_singleton.mp hr, rfl⟩
    · split
      · rename_i hcancel
        refine moves_canceling (hinv p hp) ?_ rfl fun r => List.mem_singleton
        exact hcancel.elim (fun h => .inl h.1) (habove high hlast p hp)
      · exact Moves.refl (hinv p hp) fun r => List.not_mem_nil

/-! ## New points -/

/-- Points are added, and none is changed. -/
structure Extends (s s' : StrategyBuySpotStateRun) : Prop where
  config_eq : s'.config = s.config
  prices_sub : ∀ p ∈ s.prices, p ∈ s'.prices
  buyPoint_eq : ∀ p ∈ s.prices, s'.buyPoint p = s.buyPoint p
  new : ∀ p ∈ s'.prices, p ∉ s.prices → s'.buyPoint p = { price := p }
  hold_eq : s'.holdBuyPointsPrices = s.holdBuyPointsPrices

theorem Extends.refl (s : StrategyBuySpotStateRun) : Extends s s where
  config_eq := rfl
  prices_sub := fun _ => id
  buyPoint_eq := fun _ _ => rfl
  new := fun _ hp hnew => absurd hp hnew
  hold_eq := rfl

theorem Extends.trans {s'' : StrategyBuySpotStateRun} (h : Extends s s') (h' : Extends s' s'') :
    Extends s s'' where
  config_eq := h'.config_eq.trans h.config_eq
  prices_sub := fun p hp => h'.prices_sub p (h.prices_sub p hp)
  buyPoint_eq := fun p hp => (h'.buyPoint_eq p (h.prices_sub p hp)).trans (h.buyPoint_eq p hp)
  new := fun p hp hnew => by
    by_cases hp' : p ∈ s'.prices
    · rw [h'.buyPoint_eq p hp', h.new p hp' hnew]
    · exact h'.new p hp hp'
  hold_eq := h'.hold_eq.trans h.hold_eq

/-- A new point is available. -/
theorem extends_addBuyPointAtPrice (s : StrategyBuySpotStateRun) (price : ℚ) :
    Extends s (s.addBuyPointAtPrice price) := by
  rw [addBuyPointAtPrice]
  split
  · exact .refl s
  · rename_i hnew
    have hold : ∀ p ∈ s.prices,
        Function.update s.buyPoint price { price := price } p = s.buyPoint p := fun p hp =>
      Function.update_of_ne (by rintro rfl; exact hnew hp) ..
    refine ⟨rfl, fun p hp => List.mem_append_left _ hp, hold, fun p hp hp' => ?_, ?_⟩
    · obtain rfl : p = price := by simpa [hp'] using hp
      exact Function.update_self ..
    · have hfilter : s.prices.filter (fun p =>
          (Function.update s.buyPoint price { price := price } p).status = .hold) =
            s.prices.filter fun p => (s.buyPoint p).status = .hold :=
        List.filter_congr fun p hp => by rw [hold p hp]
      simp [holdBuyPointsPrices, List.filter_append, hfilter]

theorem mem_prices_addBuyPointAtPrice (s : StrategyBuySpotStateRun) (price p : ℚ) :
    p ∈ (s.addBuyPointAtPrice price).prices ↔ p ∈ s.prices ∨ p = price := by
  rw [addBuyPointAtPrice]
  split
  · rename_i hold
    refine ⟨.inl, fun hp => hp.elim id ?_⟩
    rintro rfl
    exact hold
  · simp

theorem extends_foldl (s : StrategyBuySpotStateRun) (prices : List ℚ) :
    Extends s (prices.foldl addBuyPointAtPrice s) ∧
      ∀ p, p ∈ (prices.foldl addBuyPointAtPrice s).prices ↔ p ∈ s.prices ∨ p ∈ prices := by
  induction prices generalizing s with
  | nil => exact ⟨.refl s, by simp⟩
  | cons price prices ih =>
    obtain ⟨hextends, hmem⟩ := ih (s.addBuyPointAtPrice price)
    refine ⟨(s.extends_addBuyPointAtPrice price).trans hextends, fun p => ?_⟩
    rw [List.foldl_cons, hmem, mem_prices_addBuyPointAtPrice, List.mem_cons, or_assoc]

theorem extends_observe (s : StrategyBuySpotStateRun) (first price : ℚ) :
    Extends s (s.observe first price) := by
  rw [observe, updateLowerNearestPrice, getAPricePoint]
  split
  · have h := extends_addBuyPointAtPrice { s with currentPrice := price }
      (price - s.config.movePrice)
    exact ⟨h.config_eq, h.prices_sub, h.buyPoint_eq, h.new, h.hold_eq⟩
  · exact ⟨rfl, fun _ => id, fun _ _ => rfl, fun _ hp hnew => absurd hp hnew, rfl⟩

/-- Only an empty map gets a point before the ladder. -/
theorem prices_observe {first price : ℚ} (hne : s.prices ≠ []) :
    (s.observe first price).prices = s.prices := by
  rw [observe, updateLowerNearestPrice, getAPricePoint, if_neg hne]

/-! ## The updates -/

/-- The ladder below a price. -/
def ladderAt (s : StrategyBuySpotStateRun) (first price : ℚ) : List ℚ :=
  (s.observe first price).ladder

/-- The points once those of the ladder are there. -/
theorem extends_addNewBuyPoints (s : StrategyBuySpotStateRun) (first price : ℚ) :
    Extends s (s.observe first price).addNewBuyPoints ∧
      ∀ p, p ∈ (s.observe first price).addNewBuyPoints.prices ↔
        p ∈ (s.observe first price).prices ∨ p ∈ s.ladderAt first price := by
  obtain ⟨hextends, hmem⟩ := (s.observe first price).extends_foldl (s.ladderAt first price)
  exact ⟨(s.extends_observe first price).trans hextends, hmem⟩

theorem Extends.inv (h : Extends s s') (hinv : s.Inv) : s'.Inv := fun p hp => by
  by_cases hold : p ∈ s.prices
  · rw [h.buyPoint_eq p hold]
    exact hinv p hold
  · rw [h.new p hp hold]
    exact inv_of_available rfl rfl rfl

theorem ladder_foldl (s : StrategyBuySpotStateRun) (prices : List ℚ) :
    (prices.foldl addBuyPointAtPrice s).ladder = s.ladder := by
  induction prices generalizing s with
  | nil => rfl
  | cons price prices ih =>
    refine (ih _).trans ?_
    rw [addBuyPointAtPrice]
    split <;> rfl

/-- **A price update**: new points, the buy orders, and then the sell orders. -/
theorem handlePriceUpdate_spec (newId : ℚ → OrderId) (hinv : s.Inv) (first price : ℚ) :
    ∃ s₁ s₂ rs, Extends s s₁ ∧
      (∀ p, p ∈ s₁.prices ↔ p ∈ (s.observe first price).prices ∨ p ∈ s.ladderAt first price) ∧
      Moved s₁ s₂ rs ∧ (∀ p, Busy (s₁.buyPoint p) → Busy (s₂.buyPoint p)) ∧
      s₂.holdBuyPointsPrices = s.holdBuyPointsPrices ∧
      s.handlePriceUpdate newId first price =
        some ((s₂.updateSellOrders newId).1, rs ++ (s₂.updateSellOrders newId).2) := by
  obtain ⟨hextends, hmem⟩ := s.extends_addNewBuyPoints first price
  obtain ⟨s₂, rs, hbuy, hmoved, hpoints⟩ := updateBuyOrders_spec newId (hextends.inv hinv)
    fun p hp => (hmem p).mpr (.inr (by rwa [addNewBuyPoints, ladder_foldl] at hp))
  refine ⟨_, s₂, rs, hextends, hmem, hmoved, fun p => (hpoints p).2, ?_, ?_⟩
  · rw [holdBuyPointsPrices_congr hmoved.prices_eq hmoved.config_eq fun p => (hpoints p).1,
      hextends.hold_eq]
  · rw [handlePriceUpdate, hbuy]
    rfl

end StrategyBuySpotStateRun

/-- What the strategy is told. -/
inductive BuySpotEvent
  | priceUpdate (newId : ℚ → OrderId) (first price : ℚ)
  | orderUpdate (order : Order)

namespace StrategyBuySpotStateRun

open BuyPoint

/-- The state after an event; a failed one leaves it. -/
def step (s : StrategyBuySpotStateRun) : BuySpotEvent → StrategyBuySpotStateRun
  | .priceUpdate newId first price =>
    ((s.handlePriceUpdate newId first price).map Prod.fst).getD s
  | .orderUpdate order => (s.handleOrderUpdate order).getD s

/-- **What an event shall do.**  The points that it leaves say what their status says, and none has
become one to be cancelled but a placed one, with its own order; what is bought holds nothing, and
what is sold something; an order without a point changes nothing. -/
def Meets (s : StrategyBuySpotStateRun) : BuySpotEvent → Prop
  | .priceUpdate newId first price =>
    ∃ s' rs, s.handlePriceUpdate newId first price = some (s', rs) ∧
      (∀ p ∈ s'.prices, (s'.buyPoint p).Valid) ∧
      (∀ p ∈ s'.prices, (s'.buyPoint p).status = .canceling →
        p ∈ s.prices ∧ ((s.buyPoint p).status = .canceling ∨ (s.buyPoint p).status = .placed ∧
          ∃ o, (p, .cancel o) ∈ rs ∧ o.orderId = (s.buyPoint p).currentOrderId)) ∧
      ∀ p ∈ s'.prices, ∀ o, (p, .place o) ∈ rs →
        (0 < (s'.buyPoint p).quantity → o.side ≠ .buy) ∧
          ((s'.buyPoint p).quantity = 0 → o.side ≠ .sell)
  | .orderUpdate order =>
    ∃ s', s.handleOrderUpdate order = some s' ∧
      (s.buyPointPrice order ∉ s.prices → s' = s) ∧
      (∀ p ∈ s'.prices, (s'.buyPoint p).Valid) ∧
      ∀ p ∈ s'.prices, (s'.buyPoint p).status = .canceling →
        p ∈ s.prices ∧ (s.buyPoint p).status = .canceling

/-- **When it does**: a price update finds every point above the highest hold price, and every price
of the ladder there, placed or being cancelled; an order update finds its point, and a buy is filled
with something. -/
def Condition (s : StrategyBuySpotStateRun) : BuySpotEvent → Prop
  | .priceUpdate _ first price =>
    ∀ high ∈ s.holdBuyPointsPrices.getLast?, ∀ p, p ∈ s.prices ∨ p ∈ s.ladderAt first price →
      high < p → p ∈ s.prices ∧ Busy (s.buyPoint p)
  | .orderUpdate order => s.buyPointPrice order ∈ s.prices ∧
      (order.status = .filled → order.side = .buy → 0 < order.quantity)

variable {s : StrategyBuySpotStateRun}

theorem prices_ne_nil {high : ℚ} (hhigh : high ∈ s.holdBuyPointsPrices.getLast?) :
    s.prices ≠ [] := fun hnil => by
  simp [holdBuyPointsPrices, hnil] at hhigh

/-- **Price updates.** -/
theorem priceUpdate_iff (hinv : s.Inv) (newId : ℚ → OrderId) (first price : ℚ) :
    (s.Meets (.priceUpdate newId first price) ↔ s.Condition (.priceUpdate newId first price)) ∧
      (s.Condition (.priceUpdate newId first price) →
        (s.step (.priceUpdate newId first price)).Inv) := by
  obtain ⟨s₁, s₂, rs, hextends, hmem, hmoved, hbusy, hhold, hupdate⟩ :=
    handlePriceUpdate_spec newId hinv first price
  have hprices : ∀ high ∈ s.holdBuyPointsPrices.getLast?, ∀ p, p ∈ s₁.prices ↔
      p ∈ s.prices ∨ p ∈ s.ladderAt first price := fun high hhigh p => by
    rw [hmem, prices_observe (prices_ne_nil hhigh)]
  have hsold : s.Condition (.priceUpdate newId first price) →
      Moved s₂ (s₂.updateSellOrders newId).1 (s₂.updateSellOrders newId).2 := fun hcond => by
    refine moved_updateSellOrders hmoved.inv fun high hhigh p hp hlt => ?_
    rw [hhold] at hhigh
    rw [hmoved.prices_eq, hprices high hhigh] at hp
    obtain ⟨hold, hbusy'⟩ := hcond high hhigh p hp hlt
    rw [← hextends.buyPoint_eq p hold] at hbusy'
    exact hbusy p hbusy'
  refine ⟨⟨?_, fun hcond => ?_⟩, fun hcond => ?_⟩
  · rintro ⟨s', rs', hupdate', -, hcanceling, -⟩ high hhigh p hp hlt
    obtain ⟨rfl, rfl⟩ : (s₂.updateSellOrders newId).1 = s' ∧
        rs ++ (s₂.updateSellOrders newId).2 = rs' :=
      Prod.mk.inj (Option.some.inj (hupdate.symm.trans hupdate'))
    have hp₂ : p ∈ s₂.prices := hmoved.prices_eq ▸ (hprices high hhigh p).mpr hp
    have hstatus := @updateSellOrders_above s₂ newId _ _ (hhold ▸ hhigh) hp₂ hlt
    obtain ⟨hold, hstatus'⟩ := hcanceling p (by rwa [prices_updateSellOrders]) hstatus
    exact ⟨hold, hstatus'.symm.imp And.left id⟩
  · have hall := hmoved.trans (hsold hcond)
    refine ⟨_, _, hupdate, fun p hp => (hall.inv p hp).toValid, fun p hp hstatus => ?_,
      fun p hp o ho => ?_⟩
    · rw [hall.prices_eq] at hp
      have hcanceling := (hall.moves p hp).canceling hstatus
      by_cases hold : p ∈ s.prices
      · rw [hextends.buyPoint_eq p hold] at hcanceling
        exact ⟨hold, hcanceling⟩
      · rw [hextends.new p hp hold] at hcanceling
        simp at hcanceling
    · rw [hall.prices_eq] at hp
      have hmoves := hall.moves p hp
      rw [hmoves.quantity_eq]
      exact ⟨fun hpos hside => hpos.ne' (hmoves.buy o ho hside),
        fun hzero hside => (hmoves.sell o ho hside).ne' hzero⟩
  · rw [step, hupdate]
    exact (hsold hcond).inv

theorem handleOrderUpdate_of_mem {order : Order} (h : s.buyPointPrice order ∈ s.prices) :
    s.handleOrderUpdate order = some (s.setBuyPoint (s.buyPointPrice order)
      ((s.buyPoint (s.buyPointPrice order)).handleOrderUpdate order)) := by
  rw [handleOrderUpdate, getBuyPointByPrice, if_pos h]

/-- **Order updates.** -/
theorem orderUpdate_iff (hinv : s.Inv) (order : Order) :
    (s.Meets (.orderUpdate order) ↔ s.Condition (.orderUpdate order)) ∧
      (s.Condition (.orderUpdate order) → (s.step (.orderUpdate order)).Inv) := by
  by_cases hmem : s.buyPointPrice order ∈ s.prices
  · have hupdate := handleOrderUpdate_of_mem hmem
    have hinv' (hcond : s.Condition (.orderUpdate order)) :
        (s.setBuyPoint (s.buyPointPrice order)
          ((s.buyPoint (s.buyPointPrice order)).handleOrderUpdate order)).Inv := fun p hp => by
      rw [buyPoint_setBuyPoint]
      split
      · exact (hinv _ hmem).handleOrderUpdate hcond.2
      · exact hinv p hp
    refine ⟨⟨?_, fun hcond => ?_⟩, fun hcond => ?_⟩
    · rintro ⟨s', hupdate', -, hvalid, -⟩
      obtain rfl := Option.some.inj (hupdate.symm.trans hupdate')
      refine ⟨hmem, fun hfilled hside => ?_⟩
      have hpoint := hvalid _ hmem
      rw [buyPoint_setBuyPoint, if_pos rfl, BuyPoint.handleOrderUpdate,
        if_neg (by simp [hfilled]), if_pos hfilled, hside] at hpoint
      exact (hpoint.hold rfl).1
    · refine ⟨_, hupdate, fun hnot => absurd hmem hnot, fun p hp => (hinv' hcond p hp).toValid,
        fun p hp hstatus => ⟨hp, ?_⟩⟩
      rw [buyPoint_setBuyPoint] at hstatus
      split at hstatus
      · rename_i heq
        rw [heq]
        exact status_handleOrderUpdate hstatus
      · exact hstatus
    · rw [step, hupdate]
      exact hinv' hcond
  · have hupdate : s.handleOrderUpdate order = none := by
      rw [handleOrderUpdate, getBuyPointByPrice, if_neg hmem]
    refine ⟨iff_of_false ?_ fun hcond => hmem hcond.1, fun hcond => absurd hcond.1 hmem⟩
    rintro ⟨s', hupdate', -⟩
    rw [hupdate] at hupdate'
    cases hupdate'

/-- **Along every run the points behave exactly under the conditions.** -/
theorem along_buyPoints_iff (hinv : s.Inv) (es : List BuySpotEvent) :
    Run.Along step Meets s es ↔ Run.Along step Condition s es := by
  refine Run.along_iff_of_invariant (I := Inv) (L := fun _ _ => True) (fun s e hinv _ hcond => ?_)
    (fun s e hinv _ => ?_) hinv (Run.along_of_forall (fun _ _ => trivial) s es)
  · cases e with
    | priceUpdate newId first price => exact (priceUpdate_iff hinv newId first price).2 hcond
    | orderUpdate order => exact (orderUpdate_iff hinv order).2 hcond
  · cases e with
    | priceUpdate newId first price => exact (priceUpdate_iff hinv newId first price).1
    | orderUpdate order => exact (orderUpdate_iff hinv order).1

/-! ## A price that rises -/

/-- A strategy without points, as it starts on an empty database. -/
def buySpotStart : StrategyBuySpotStateRun where
  config := { move_pos := by norm_num, open_pos := by norm_num }
  instrument := .create .binance .spot "BTC-USDT" "BTCUSDT" 5 2
  nodup := List.nodup_nil

theorem inv_buySpotStart : buySpotStart.Inv := fun _ hp => absurd hp List.not_mem_nil

/-- An update of a limit order to buy. -/
def buyOrder (status : OrderStatus) (price : ℚ) : BuySpotEvent :=
  .orderUpdate { orderId := 7, status := status, price := price, quantity := 1 / 50 }

/-- At 1000 the ladder begins at 900, where an order is placed and filled. -/
def boughtAt900 : List BuySpotEvent :=
  [.priceUpdate (fun _ => 7) 0 1000, buyOrder .new 900, buyOrder .filled 900]

/-- A price at which the points are all at 900, which holds, and below. -/
theorem boughtAt900_meets :
    Run.Along step Meets buySpotStart (boughtAt900 ++ [.priceUpdate (fun _ => 8) 900 950]) := by
  refine (along_buyPoints_iff inv_buySpotStart _).mpr ⟨?_, ⟨?_, ?_⟩, ⟨?_, ?_⟩, ?_, trivial⟩
  · exact fun high hhigh => absurd rfl (prices_ne_nil hhigh)
  · decide +kernel
  · exact fun h => by cases h
  · decide +kernel
  · exact fun _ _ => by norm_num
  · intro high hhigh p hp hlt
    have hhold : (Run.exec step buySpotStart boughtAt900).holdBuyPointsPrices.getLast? =
        some 900 := by decide +kernel
    have hlow : ∀ p ∈ (Run.exec step buySpotStart boughtAt900).prices ++
        (Run.exec step buySpotStart boughtAt900).ladderAt 900 950, p ≤ 900 := by decide +kernel
    obtain rfl : (900 : ℚ) = high := Option.some.inj (hhold.symm.trans hhigh)
    exact absurd hlt (not_lt.mpr (hlow p (List.mem_append.mpr hp)))

/-- **At 1150 the new points above 900 are cancelled** before they have an order; and an order far
from the points reads through null. -/
theorem risingPrice_not_meet :
    buySpotStart.Inv ∧
      ¬ Run.Along step Meets buySpotStart (boughtAt900 ++ [.priceUpdate (fun _ => 8) 900 1150]) ∧
      ¬ Run.Along step Meets buySpotStart [buyOrder .new 5] := by
  refine ⟨inv_buySpotStart, fun hmeets => ?_, ?_⟩
  · obtain ⟨s', rs, hupdate, -, hcanceling, -⟩ := (Run.along_append _ _ _).mp hmeets |>.2.1
    have hafter : ((Run.exec step buySpotStart boughtAt900).handlePriceUpdate (fun _ => 8) 900
        1150).map (fun r => (decide (1100 ∈ r.1.prices), (r.1.buyPoint 1100).status)) =
          some (true, .canceling) := by decide +kernel
    have hbefore : 1100 ∉ (Run.exec step buySpotStart boughtAt900).prices := by decide +kernel
    rw [hupdate] at hafter
    obtain ⟨hmem, hstatus⟩ := Prod.mk.inj (Option.some.inj hafter)
    exact hbefore (hcanceling 1100 (of_decide_eq_true hmem) hstatus).1
  · rintro ⟨⟨s', hupdate, -⟩, -⟩
    cases hupdate

end StrategyBuySpotStateRun

end TradingEngine
