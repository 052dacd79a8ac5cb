import TradingEngine.OrderBook.SideInvariant

/-!
# OrderBook/SideGrid — a side read at its grid prices

On the grid of its own base, a side is a map from prices to quantities: `priceToIndex` and
`indexToPrice` are inverse to each other between the indices and the prices of the window
(`InWindow`), a write changes one price, and a move keeps exactly the positive quantities of the
prices inside the new window.
-/

namespace TradingEngine

open Grid

/-- The window of `depth` ticks around `base`: index `depth / 2` is the base. -/
def InWindow (tick : ℚ) (depth : ℕ) (base p : ℚ) : Prop :=
  base - (depth / 2 : ℕ) * tick ≤ p ∧ p ≤ base + (depth - 1 - depth / 2 : ℕ) * tick

instance (tick : ℚ) (depth : ℕ) (base p : ℚ) : Decidable (InWindow tick depth base p) :=
  inferInstanceAs (Decidable (_ ∧ _))

/-- The window, in ticks. -/
theorem inWindow_offset_iff {tick : ℚ} (ht : 0 < tick) {depth : ℕ} (hd : 0 < depth) (base : ℚ)
    (k : ℤ) :
    InWindow tick depth base (base + k * tick) ↔
      0 ≤ ((depth / 2 : ℕ) : ℤ) + k ∧ ((depth / 2 : ℕ) : ℤ) + k < depth := by
  have hlow : base - (depth / 2 : ℕ) * tick ≤ base + k * tick ↔ -((depth / 2 : ℕ) : ℤ) ≤ k := by
    rw [sub_eq_add_neg, add_le_add_iff_left, ← neg_mul, mul_le_mul_iff_of_pos_right ht]
    exact_mod_cast Iff.rfl
  have hhigh : base + k * tick ≤ base + (depth - 1 - depth / 2 : ℕ) * tick ↔
      k ≤ ((depth - 1 - depth / 2 : ℕ) : ℤ) := by
    rw [add_le_add_iff_left, mul_le_mul_iff_of_pos_right ht]
    exact_mod_cast Iff.rfl
  rw [InWindow, hlow, hhigh]
  omega

namespace OrderBookSide

variable (s : OrderBookSide)

/-- The prices a whole number of ticks away from the base. -/
abbrev OnGrid (p : ℚ) : Prop := Grid.OnGrid s.basePrice s.tickSize p

/-- The prices of the window. -/
abbrev Window (p : ℚ) : Prop := InWindow s.tickSize s.depth s.basePrice p

/-! ## Prices and indices -/

theorem depth_lt : s.depth < 2 ^ 62 := by
  have := s.depth_le
  simp only [maxSize] at this
  omega

theorem priceToIndex_offset (k : ℤ) :
    s.priceToIndex (s.basePrice + k * s.tickSize) = toSize (s.centerIndex + toInt64 k) := by
  have hk : (s.basePrice + k * s.tickSize - s.basePrice) * s.invTickSize = (k : ℚ) := by
    have := s.tick_pos.ne'
    rw [invTickSize]
    field_simp
    ring
  rw [priceToIndex, hk, llround, roundHalfAway_intCast]

/-- **A grid price has an index exactly when it lies in the window.** -/
theorem priceToIndex_lt_iff {p : ℚ} (hp : s.OnGrid p) :
    s.priceToIndex p < s.depth ↔ s.Window p := by
  obtain ⟨k, rfl⟩ := hp
  have hc : s.centerIndex ≤ s.depth := Nat.div_le_self _ _
  rw [priceToIndex_offset, toSize_center_lt_iff hc s.depth_lt, Window,
    inWindow_offset_iff s.tick_pos s.depth_pos]
  exact Iff.rfl

theorem validPrice_iff {p : ℚ} (hp : s.OnGrid p) : s.validPrice p = true ↔ s.Window p := by
  rw [← s.priceToIndex_lt_iff hp, validPrice, validIndex, decide_eq_true_iff]

theorem onGrid_indexToPrice (i : ℕ) : s.OnGrid (s.indexToPrice i) := ⟨_, rfl⟩

theorem priceToIndex_indexToPrice {i : ℕ} (hi : i < s.depth) :
    s.priceToIndex (s.indexToPrice i) = i := by
  have hc : s.centerIndex ≤ s.depth := Nat.div_le_self _ _
  rw [indexToPrice, priceToIndex_offset, toSize_center_eq s.depth_lt (by omega) hc]
  omega

theorem indexToPrice_priceToIndex {p : ℚ} (hp : s.OnGrid p) (h : s.priceToIndex p < s.depth) :
    s.indexToPrice (s.priceToIndex p) = p := by
  have hc : s.centerIndex ≤ s.depth := Nat.div_le_self _ _
  obtain ⟨k, rfl⟩ := hp
  rw [priceToIndex_offset] at h ⊢
  have hk := (toSize_center_lt_iff hc s.depth_lt k).mp h
  rw [toSize_center_eq s.depth_lt hk hc, indexToPrice]
  have : ((((s.centerIndex : ℤ) + k).toNat : ℕ) : ℤ) - (s.centerIndex : ℤ) = k := by omega
  rw [this]

/-- Two grid prices of the window have the same index only if they are the same. -/
theorem priceToIndex_inj {p p' : ℚ} (hp : s.OnGrid p) (hp' : s.OnGrid p')
    (h : s.priceToIndex p < s.depth) (heq : s.priceToIndex p' = s.priceToIndex p) : p' = p := by
  rw [← s.indexToPrice_priceToIndex hp h, ← s.indexToPrice_priceToIndex hp' (by rw [heq]; exact h),
    heq]

/-! ## The side as a map from grid prices to quantities -/

theorem getQuantity_eq (p : ℚ) : s.getQuantity p = s.quantityAtIndex (s.priceToIndex p) := by
  rw [getQuantity]
  split
  · rfl
  · rename_i h
    by_contra hne
    exact h (s.lt_depth_of_quantityAtIndex_ne_zero (Ne.symm hne))

/-- **A write changes one price, if it lies in the window.** -/
theorem getQuantity_setLevel {p p' : ℚ} (hp : s.OnGrid p) (hp' : s.OnGrid p') (q : ℚ) :
    (s.setLevel p q).getQuantity p' = if s.Window p ∧ p' = p then q else s.getQuantity p' := by
  by_cases h : s.Window p
  · have hlt := (s.priceToIndex_lt_iff hp).mpr h
    rw [getQuantity_eq, getQuantity_eq, priceToIndex_congr (s.setLevel_geometry p q),
      s.quantityAtIndex_setLevel hlt]
    by_cases heq : p' = p
    · simp [heq, h]
    · have hne : s.priceToIndex p' ≠ s.priceToIndex p := fun hi =>
        heq (s.priceToIndex_inj hp hp' hlt hi)
      simp [heq, hne]
  · have hle : s.depth ≤ s.priceToIndex p :=
      Nat.le_of_not_lt (mt (s.priceToIndex_lt_iff hp).mp h)
    rw [s.setLevel_of_le hle, if_neg fun hc => h hc.1]

@[simp] theorem getQuantity_clear (p : ℚ) : s.clear.getQuantity p = 0 := by
  rw [getQuantity_eq, clear_eq_fresh, quantityAtIndex_fresh]

/-- **The filled prices are the grid prices with a positive quantity.** -/
theorem mem_filledPrices_iff {p : ℚ} : p ∈ s.filledPrices ↔ s.OnGrid p ∧ 0 < s.getQuantity p := by
  constructor
  · rintro ⟨i, hi, rfl⟩
    refine ⟨s.onGrid_indexToPrice i, ?_⟩
    rw [getQuantity_eq, s.priceToIndex_indexToPrice (lt_depth_of_mem_filled hi)]
    exact hi
  · rintro ⟨hp, hq⟩
    rw [getQuantity_eq] at hq
    have hlt := lt_depth_of_mem_filled (s := s) (i := s.priceToIndex p) hq
    exact ⟨s.priceToIndex p, hq, s.indexToPrice_priceToIndex hp hlt⟩

/-! ## A move keeps the positive levels of the new window -/

/-- The fold of a move, over any list of indices: a price of the new side takes its old quantity
once its index has come up. -/
theorem getQuantity_foldl_moveLevel {new : OrderBookSide}
    (hgrid : ∀ p, s.OnGrid p ↔ new.OnGrid p) {p : ℚ} (hp : s.OnGrid p) (is : List ℕ)
    (his : ∀ i ∈ is, i < s.depth) :
    (is.foldl s.moveLevel new).getQuantity p =
      if s.priceToIndex p ∈ is ∧ 0 < s.getQuantity p ∧ new.Window p then s.getQuantity p
      else new.getQuantity p := by
  induction is generalizing new with
  | nil => simp
  | cons i is ih =>
    have his' : ∀ j ∈ is, j < s.depth := fun j hj => his j (List.mem_cons_of_mem _ hj)
    have hi : i < s.depth := his i List.mem_cons_self
    have hquant : s.quantityAtIndex i = s.getQuantity (s.indexToPrice i) := by
      rw [getQuantity_eq, s.priceToIndex_indexToPrice hi]
    have hmem : s.priceToIndex p = i ↔ p = s.indexToPrice i := by
      constructor
      · rintro rfl
        exact (s.indexToPrice_priceToIndex hp hi).symm
      · rintro rfl
        exact s.priceToIndex_indexToPrice hi
    rw [List.foldl_cons, moveLevel]
    by_cases hq : s.quantityAtIndex i ≤ 0
    · -- an empty level is skipped, so its index cannot be the one that fills `p`
      rw [if_pos hq, ih hgrid his']
      refine if_congr (and_congr_left fun hpos => ?_) rfl rfl
      rw [List.mem_cons, hmem]
      refine (or_iff_right fun heq => ?_).symm
      rw [heq, ← hquant] at hpos
      exact absurd hpos.1 (not_lt.mpr hq)
    · have hset := new.getQuantity_setLevel
        ((hgrid _).mp (s.onGrid_indexToPrice i)) ((hgrid _).mp hp) (s.quantityAtIndex i)
      have hwin : (new.setLevel (s.indexToPrice i) (s.quantityAtIndex i)).Window p ↔
          new.Window p := by simp [Window]
      rw [if_neg hq, ih (fun p' => by rw [hgrid p', OnGrid, OnGrid]; simp) his', hset]
      simp only [hwin]
      by_cases heq : p = s.indexToPrice i
      · subst heq
        rw [hquant] at hq ⊢
        have hpos := not_le.mp hq
        by_cases hw : new.Window (s.indexToPrice i)
        · simp [hw, hpos, s.priceToIndex_indexToPrice hi]
        · simp [hw]
      · have hne : s.priceToIndex p ≠ i := fun hc => heq (hmem.mp hc)
        simp [heq, hne]

/-- **A move to a base on the grid keeps exactly the positive quantities of the new window.** -/
theorem getQuantity_moveToNewBasePrice {b p : ℚ} (hb : s.OnGrid b) (hp : s.OnGrid p) :
    (s.moveToNewBasePrice b).getQuantity p =
      if 0 < s.getQuantity p ∧ InWindow s.tickSize s.depth b p then s.getQuantity p else 0 := by
  have hgrid : ∀ p', s.OnGrid p' ↔ Grid.OnGrid b s.tickSize p' := fun p' =>
    ⟨fun h => hb.rebase h, fun h => hb.trans h⟩
  have hfresh : (fresh s.side b s.tickSize s.depth s.tick_pos s.depth_pos s.depth_le).getQuantity p
      = 0 := by rw [getQuantity_eq, quantityAtIndex_fresh]
  rw [moveToNewBasePrice, s.getQuantity_foldl_moveLevel hgrid hp _ fun i hi => List.mem_range.mp hi,
    hfresh]
  refine if_congr ⟨fun h => h.2, fun h => ⟨?_, h⟩⟩ rfl rfl
  have hpos := h.1
  rw [getQuantity_eq] at hpos
  exact List.mem_range.mpr (lt_depth_of_mem_filled hpos)

end OrderBookSide

end TradingEngine
