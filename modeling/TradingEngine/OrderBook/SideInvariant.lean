import TradingEngine.Machinery.Run
import TradingEngine.OrderBook.Side

/-!
# OrderBook/SideInvariant — array, bitmap and cached top stay consistent

Three representations of the same set of filled levels must agree: the array (`quantityAtIndex`),
the bitmap (`marked`) and the cached best index (`topIndex`).  `Inv` says that they do; every
operation keeps it, and so does every sequence of operations on a constructed side.  Nothing here
depends on prices or ticks: an operation touches one index, or all of them.
-/

namespace TradingEngine

/-! ## The best element of a set, for either side -/

section Best

variable {α : Type*} [LinearOrder α]

/-- The best element of a set: the greatest for bids, the least for asks. -/
def IsBest : OrderBookSideType → Set α → α → Prop
  | .bid => IsGreatest
  | .ask => IsLeast

/-- `a` improves on `b`: it is above it for bids, below it for asks. -/
def Better : OrderBookSideType → α → α → Prop
  | .bid, a, b => b < a
  | .ask, a, b => a < b

variable {side : OrderBookSideType} {S T : Set α} {a b : α}

theorem IsBest.mem (h : IsBest side S a) : a ∈ S := by
  cases side <;> exact h.1

/-- Nothing in the set improves on its best element. -/
theorem IsBest.not_better (h : IsBest side S a) (hb : b ∈ S) : ¬ Better side b a := by
  cases side
  · exact not_lt.mpr (h.2 hb)
  · exact not_lt.mpr (h.2 hb)

/-- …and that says it all. -/
theorem isBest_of_not_better (ha : a ∈ S) (h : ∀ b ∈ S, ¬ Better side b a) : IsBest side S a := by
  cases side
  · exact ⟨ha, fun b hb => not_lt.mp (h b hb)⟩
  · exact ⟨ha, fun b hb => not_lt.mp (h b hb)⟩

theorem Better.trans {c : α} (hab : Better side a b) (hbc : Better side b c) : Better side a c := by
  cases side
  · exact lt_trans (α := α) hbc hab
  · exact lt_trans (α := α) hab hbc

theorem not_better_self (a : α) : ¬ Better side a a := by
  cases side <;> exact lt_irrefl a

/-- **There is only one best element.** -/
theorem IsBest.unique (ha : IsBest side S a) (hb : IsBest side S b) : a = b := by
  cases side
  · exact IsGreatest.unique ha hb
  · exact IsLeast.unique ha hb

/-- **An element that improves on the best becomes the best.** -/
theorem IsBest.insert_better (h : IsBest side S b) (hab : Better side a b) :
    IsBest side (insert a S) a := by
  refine isBest_of_not_better (Set.mem_insert a S) fun c hc hca => ?_
  rcases hc with rfl | hc
  · exact not_better_self _ hca
  · exact h.not_better hc (hca.trans hab)

/-- An element that does not leaves it where it is. -/
theorem IsBest.insert_not_better (h : IsBest side S b) (hab : ¬ Better side a b) :
    IsBest side (insert a S) b := by
  refine isBest_of_not_better (Set.mem_insert_of_mem a h.mem) fun c hc => ?_
  rcases hc with rfl | hc
  · exact hab
  · exact h.not_better hc

theorem IsBest.mono (h : IsBest side S a) (hTS : T ⊆ S) (ha : a ∈ T) : IsBest side T a :=
  isBest_of_not_better ha fun _ hb => h.not_better (hTS hb)

theorem isBest_singleton (a : α) : IsBest side {a} a :=
  isBest_of_not_better rfl fun _ hb => hb ▸ not_better_self _

end Best

namespace OrderBookSide

/-! ## The invariant -/

/-- The indices of the levels that hold a positive quantity. -/
def filled (s : OrderBookSide) : Set ℕ := {i | 0 < s.quantityAtIndex i}

/-- The cached top is the best filled index, or the sentinel when there is none. -/
def TopOk (s : OrderBookSide) : Prop :=
  (s.topIndex = invalidIndex ∧ s.filled = ∅) ∨ IsBest s.side s.filled s.topIndex

/-- **The representation invariant** of a side. -/
structure Inv (s : OrderBookSide) : Prop where
  /-- The bitmap mirrors the array. -/
  marked_iff : ∀ i, s.marked i = true ↔ i ∈ s.filled
  /-- The cache is the best filled index. -/
  top : s.TopOk

variable {s : OrderBookSide}

theorem lt_depth_of_mem_filled {i : ℕ} (h : i ∈ s.filled) : i < s.depth :=
  s.lt_depth_of_quantityAtIndex_ne_zero (ne_of_gt h)

/-- An index into the array is never the sentinel. -/
theorem ne_invalidIndex {i : ℕ} (h : i < s.depth) : i ≠ invalidIndex := by
  have hle := s.depth_le
  simp only [maxSize] at hle
  simp only [invalidIndex]
  omega

theorem isBetterTop_iff (h : s.topIndex ≠ invalidIndex) (i : ℕ) :
    s.isBetterTop i = true ↔ Better s.side i s.topIndex := by
  rw [isBetterTop, if_neg h]
  cases s.side <;> simp [Better]

/-! ## The operations keep it -/

theorem inv_fresh {side : OrderBookSideType} {b t : ℚ} {d : ℕ} (ht : 0 < t) (hd : 0 < d)
    (hle : d ≤ maxSize) : (fresh side b t d ht hd hle).Inv where
  marked_iff i := by simp [filled]
  top := Or.inl ⟨rfl, Set.eq_empty_of_forall_notMem fun i hi => by simp [filled] at hi⟩

/-- **A rescan finds the best filled index** — all it needs is a bitmap that mirrors the array. -/
theorem topOk_rebuildTopFromBitmap (h : ∀ i, s.marked i = true ↔ i ∈ s.filled) :
    s.rebuildTopFromBitmap.TopOk := by
  have hlim : ∀ i, Bitmap.test s.nonEmptyWords i = true → i < s.depth := fun i hi =>
    lt_depth_of_mem_filled ((h i).mp hi)
  have hempty : (∀ i, s.marked i = false) → s.filled = ∅ := fun hall =>
    Set.eq_empty_of_forall_notMem fun i hi => by simpa [hall i] using (h i).mpr hi
  unfold TopOk
  have hfilled : s.rebuildTopFromBitmap.filled = s.filled := by simp [filled]
  rw [hfilled, rebuildTopFromBitmap]
  cases hside : s.side
  · rcases Bitmap.scanDown_spec (by decide) hlim (wordCount s.depth) with
      ⟨hnone, hall⟩ | ⟨i, hsome, ⟨hti, _⟩, hub⟩
    · refine Or.inl ⟨by simp [rebuildBidTopFromBitmap, hnone], hempty fun i => ?_⟩
      by_contra hi
      exact hi (hall i (Bitmap.div_lt_of_test (by simpa [marked] using hi)))
    · refine Or.inr ?_
      simp only [rebuildBidTopFromBitmap, hsome, Option.getD_some, hside]
      exact ⟨(h i).mp hti, fun j hj => hub ⟨(h j).mpr hj, Bitmap.div_lt_of_test ((h j).mpr hj)⟩⟩
  · rcases Bitmap.scanUp_spec (by decide) hlim (wordCount s.depth) le_rfl with
      ⟨hnone, hall⟩ | ⟨i, hsome, ⟨hti, _⟩, hlb⟩
    · refine Or.inl ⟨by simp [rebuildAskTopFromBitmap, hnone], hempty fun i => ?_⟩
      by_contra hi
      exact hi (hall i (by simp))
    · refine Or.inr ?_
      simp only [rebuildAskTopFromBitmap, hsome, Option.getD_some, hside]
      exact ⟨(h i).mp hti, fun j hj => hlb ⟨(h j).mpr hj, by simp⟩⟩

theorem filled_setLevel_of_pos {price quantity : ℚ} (h : s.priceToIndex price < s.depth)
    (hq : 0 < quantity) :
    (s.setLevel price quantity).filled = insert (s.priceToIndex price) s.filled := by
  ext j
  rw [filled, Set.mem_ofPred_eq, s.quantityAtIndex_setLevel h]
  by_cases hj : j = s.priceToIndex price
  · simp [hj, hq]
  · simp [hj, filled]

theorem filled_setLevel_of_nonpos {price quantity : ℚ} (h : s.priceToIndex price < s.depth)
    (hq : quantity ≤ 0) :
    (s.setLevel price quantity).filled = s.filled \ {s.priceToIndex price} := by
  ext j
  rw [filled, Set.mem_ofPred_eq, s.quantityAtIndex_setLevel h]
  by_cases hj : j = s.priceToIndex price
  · simp [hj, not_lt.mpr hq]
  · simp [hj, filled]

theorem marked_iff_setLevel (hs : s.Inv) {price : ℚ} (h : s.priceToIndex price < s.depth)
    (quantity : ℚ) (i : ℕ) :
    (s.setLevel price quantity).marked i = true ↔ i ∈ (s.setLevel price quantity).filled := by
  rw [s.marked_setLevel h, filled, Set.mem_ofPred_eq, s.quantityAtIndex_setLevel h]
  split
  · exact Iff.rfl
  · exact hs.marked_iff i

/-- An insert: the cache is compared with the new index. -/
theorem topOk_setLevel_of_pos (hs : s.Inv) {price quantity : ℚ}
    (h : s.priceToIndex price < s.depth) (hq : 0 < quantity) :
    (s.setLevel price quantity).TopOk := by
  refine Or.inr ?_
  rw [setLevel_side, filled_setLevel_of_pos h hq, s.setLevel_of_pos h hq]
  dsimp only
  rcases hs.top with ⟨htop, hempty⟩ | hbest
  · have hbetter : s.isBetterTop (s.priceToIndex price) = true := by rw [isBetterTop, if_pos htop]
    rw [if_pos hbetter, hempty]
    simpa using isBest_singleton (s.priceToIndex price)
  · have hne : s.topIndex ≠ invalidIndex := ne_invalidIndex (lt_depth_of_mem_filled hbest.mem)
    by_cases hbetter : s.isBetterTop (s.priceToIndex price) = true
    · rw [if_pos hbetter]
      exact hbest.insert_better ((isBetterTop_iff hne _).mp hbetter)
    · rw [if_neg hbetter]
      exact hbest.insert_not_better (mt (isBetterTop_iff hne _).mpr hbetter)

/-- A removal: the cache survives unless it is the index removed. -/
theorem topOk_setLevel_of_nonpos (hs : s.Inv) {price quantity : ℚ}
    (h : s.priceToIndex price < s.depth) (hq : quantity ≤ 0) :
    (s.setLevel price quantity).TopOk := by
  have hmarked := marked_iff_setLevel hs h quantity
  have hfilled := filled_setLevel_of_nonpos (s := s) h hq
  rw [s.setLevel_of_nonpos h hq] at hmarked hfilled ⊢
  dsimp only at hmarked hfilled ⊢
  by_cases htop : s.priceToIndex price = s.topIndex
  · rw [if_pos htop] at hmarked ⊢
    refine topOk_rebuildTopFromBitmap fun i => ?_
    simpa [filled] using hmarked i
  · rw [if_neg htop] at hfilled ⊢
    rcases hs.top with ⟨hinv, hempty⟩ | hbest
    · exact Or.inl ⟨hinv, by rw [hfilled, hempty, Set.empty_sdiff]⟩
    · refine Or.inr (hbest.mono ?_ ?_)
      · rw [hfilled]
        exact Set.sdiff_subset
      · rw [hfilled]
        exact ⟨hbest.mem, fun heq => htop (Set.mem_singleton_iff.mp heq).symm⟩

/-- **A write keeps the invariant.** -/
theorem inv_setLevel (hs : s.Inv) (price quantity : ℚ) : (s.setLevel price quantity).Inv := by
  by_cases h : s.priceToIndex price < s.depth
  · refine ⟨marked_iff_setLevel hs h quantity, ?_⟩
    rcases lt_or_ge 0 quantity with hq | hq
    · exact topOk_setLevel_of_pos hs h hq
    · exact topOk_setLevel_of_nonpos hs h hq
  · rw [s.setLevel_of_le (Nat.le_of_not_lt h)]
    exact hs

theorem inv_clear (s : OrderBookSide) : s.clear.Inv := inv_fresh _ _ _

/-- **A move keeps the invariant** — the new side is a fresh one, filled by writes. -/
theorem inv_moveToNewBasePrice (s : OrderBookSide) (b : ℚ) : (s.moveToNewBasePrice b).Inv := by
  have hfold : ∀ (is : List ℕ) (new : OrderBookSide), new.Inv → (is.foldl s.moveLevel new).Inv := by
    intro is
    induction is with
    | nil => exact fun new hnew => hnew
    | cons i is ih =>
      intro new hnew
      refine ih _ ?_
      rw [moveLevel]
      split
      · exact hnew
      · exact inv_setLevel hnew _ _
  exact hfold _ _ (inv_fresh _ _ _)

/-! ## Every sequence of calls keeps it -/

/-- A call on a side. -/
inductive Call
  | setLevel (price quantity : ℚ)
  | removeLevel (price : ℚ)
  | clear
  | resetBasePrice (newBasePrice : ℚ)
  | moveToNewBasePrice (newBasePrice : ℚ)

/-- The side after a call. -/
def call (s : OrderBookSide) : Call → OrderBookSide
  | .setLevel price quantity => s.setLevel price quantity
  | .removeLevel price => s.removeLevel price
  | .clear => s.clear
  | .resetBasePrice b => s.resetBasePrice b
  | .moveToNewBasePrice b => s.moveToNewBasePrice b

theorem inv_call (hs : s.Inv) (c : Call) : (s.call c).Inv := by
  cases c with
  | setLevel price quantity => exact inv_setLevel hs price quantity
  | removeLevel price => exact inv_setLevel hs price 0
  | clear => exact inv_clear s
  | resetBasePrice b => exact inv_clear { s with basePrice := b }
  | moveToNewBasePrice b => exact inv_moveToNewBasePrice s b

theorem call_side (s : OrderBookSide) (c : Call) : (s.call c).side = s.side := by
  cases c <;> simp [call, removeLevel, clear, resetBasePrice]

theorem call_depth (s : OrderBookSide) (c : Call) : (s.call c).depth = s.depth := by
  cases c <;> simp [call, removeLevel, clear, resetBasePrice]

theorem create_of_pos {side : OrderBookSideType} {b t : ℚ} {d : ℕ} (ht : 0 < t) (hd : 0 < d)
    (hle : d ≤ maxSize) : create side b t d = .ok (fresh side b t d ht hd hle) := by
  rw [create, dif_pos hle, dif_pos ht, dif_pos hd]

theorem create_eq_ok {side : OrderBookSideType} {b t : ℚ} {d : ℕ} {s : OrderBookSide}
    (h : create side b t d = .ok s) :
    ∃ ht hd hle, s = fresh side b t d ht hd hle := by
  rw [create] at h
  split_ifs at h with hle ht hd
  exact ⟨ht, hd, hle, (Except.ok.inj h).symm⟩

/-- **The invariant holds after every sequence of calls on a constructed side.** -/
theorem inv_exec {side : OrderBookSideType} {b t : ℚ} {d : ℕ} {s₀ : OrderBookSide}
    (h : create side b t d = .ok s₀) (cs : List Call) :
    (Run.exec call s₀ cs).Inv ∧ (Run.exec call s₀ cs).side = side ∧
      (Run.exec call s₀ cs).depth = d := by
  obtain ⟨ht, hd, hle, rfl⟩ := create_eq_ok h
  refine Run.exec_of_forall (I := fun s : OrderBookSide => s.Inv ∧ s.side = side ∧ s.depth = d)
    (fun s c hs => ?_) ⟨inv_fresh ht hd hle, rfl, rfl⟩ cs
  exact ⟨inv_call hs.1 c, (call_side s c).trans hs.2.1, (call_depth s c).trans hs.2.2⟩

/-! ## What the invariant says of the best level -/

/-- Prices grow with the index. -/
theorem indexToPrice_lt_iff (s : OrderBookSide) (i j : ℕ) :
    s.indexToPrice i < s.indexToPrice j ↔ i < j := by
  have htick := s.tick_pos
  rw [indexToPrice, indexToPrice, add_lt_add_iff_left, mul_lt_mul_iff_of_pos_right htick,
    Int.cast_lt]
  omega

theorem better_indexToPrice_iff (s : OrderBookSide) (side : OrderBookSideType) (i j : ℕ) :
    Better side (s.indexToPrice i) (s.indexToPrice j) ↔ Better side i j := by
  cases side <;> exact s.indexToPrice_lt_iff _ _

/-- The prices of the filled levels. -/
def filledPrices (s : OrderBookSide) : Set ℚ := s.indexToPrice '' s.filled

theorem isBest_indexToPrice {i : ℕ} (h : IsBest s.side s.filled i) :
    IsBest s.side s.filledPrices (s.indexToPrice i) := by
  refine isBest_of_not_better (Set.mem_image_of_mem _ h.mem) ?_
  rintro _ ⟨j, hj, rfl⟩
  rw [s.better_indexToPrice_iff]
  exact h.not_better hj

theorem topIndex_eq_invalidIndex_iff (hs : s.Inv) : s.topIndex = invalidIndex ↔ s.filled = ∅ := by
  rcases hs.top with ⟨htop, hempty⟩ | hbest
  · exact iff_of_true htop hempty
  · exact iff_of_false (ne_invalidIndex (lt_depth_of_mem_filled hbest.mem))
      (Set.nonempty_iff_ne_empty.mp ⟨_, hbest.mem⟩)

theorem isBest_topIndex (hs : s.Inv) (h : s.filled.Nonempty) :
    IsBest s.side s.filled s.topIndex := by
  rcases hs.top with ⟨_, hempty⟩ | hbest
  · exact absurd hempty (Set.nonempty_iff_ne_empty.mp h)
  · exact hbest

/-- **The reported top is the best filled level**, price and quantity. -/
theorem getTop_of_nonempty (hs : s.Inv) (h : s.filled.Nonempty) :
    IsBest s.side s.filledPrices s.getTopPrice ∧
      ∃ i ∈ s.filled,
        s.getTopPrice = s.indexToPrice i ∧ s.getTopQuantity = s.quantityAtIndex i := by
  have hbest := isBest_topIndex hs h
  have hne : s.topIndex ≠ invalidIndex := ne_invalidIndex (lt_depth_of_mem_filled hbest.mem)
  have hprice : s.getTopPrice = s.indexToPrice s.topIndex := by rw [getTopPrice, if_neg hne]
  refine ⟨hprice ▸ isBest_indexToPrice hbest, s.topIndex, hbest.mem, hprice, ?_⟩
  rw [getTopQuantity, if_neg hne]

theorem getTop_of_empty (hs : s.Inv) (h : s.filled = ∅) :
    s.getTopPrice = 0 ∧ s.getTopQuantity = 0 := by
  have htop := (topIndex_eq_invalidIndex_iff hs).mpr h
  exact ⟨by rw [getTopPrice, if_pos htop], by rw [getTopQuantity, if_pos htop]⟩

theorem mem_filled_iff {i : ℕ} : i ∈ s.filled ↔ i < s.depth ∧ 0 < s.quantityAtIndex i :=
  ⟨fun h => ⟨lt_depth_of_mem_filled h, h⟩, fun h => h.2⟩

/-- **Array, bitmap and cache agree after every sequence of calls on a constructed side**, so the
reported top is the best level of the window. -/
theorem calls_keep_representation {side : OrderBookSideType} {b t : ℚ} {d : ℕ} {s₀ : OrderBookSide}
    (h : create side b t d = .ok s₀) (cs : List Call) :
    let s := Run.exec call s₀ cs
    (∀ i, s.marked i = true ↔ i < d ∧ 0 < s.quantityAtIndex i) ∧
      (s.topIndex = invalidIndex ↔ ∀ i < d, ¬ 0 < s.quantityAtIndex i) ∧
      (s.topIndex ≠ invalidIndex → IsBest side {i | i < d ∧ 0 < s.quantityAtIndex i} s.topIndex) ∧
      ((∃ i < d, 0 < s.quantityAtIndex i) →
        IsBest side {p | ∃ i < d, 0 < s.quantityAtIndex i ∧ s.indexToPrice i = p} s.getTopPrice ∧
          ∃ i < d, 0 < s.quantityAtIndex i ∧ s.getTopPrice = s.indexToPrice i ∧
            s.getTopQuantity = s.quantityAtIndex i) ∧
      ((¬ ∃ i < d, 0 < s.quantityAtIndex i) → s.getTopPrice = 0 ∧ s.getTopQuantity = 0) := by
  intro s
  obtain ⟨hs, hside, hdepth⟩ : s.Inv ∧ s.side = side ∧ s.depth = d := inv_exec h cs
  have hmem : ∀ i, i ∈ s.filled ↔ i < d ∧ 0 < s.quantityAtIndex i :=
    fun i => hdepth ▸ mem_filled_iff
  have hset : {i | i < d ∧ 0 < s.quantityAtIndex i} = s.filled := Set.ext fun i => (hmem i).symm
  have hprices : {p | ∃ i < d, 0 < s.quantityAtIndex i ∧ s.indexToPrice i = p} =
      s.filledPrices := by
    ext p
    simp only [filledPrices, Set.mem_image, hmem, Set.mem_ofPred_eq, and_assoc]
  have hne : (∃ i < d, 0 < s.quantityAtIndex i) ↔ s.filled.Nonempty :=
    exists_congr fun i => (hmem i).symm
  rw [hset, hprices, hne]
  refine ⟨fun i => (hs.marked_iff i).trans (hmem i), ?_, fun htop => ?_, fun hf => ?_, fun hf => ?_⟩
  · rw [topIndex_eq_invalidIndex_iff hs, ← Set.not_nonempty_iff_eq_empty, ← hne]
    push Not
    rfl
  · rw [← hside]
    exact isBest_topIndex hs
      (Set.nonempty_iff_ne_empty.mpr (mt (topIndex_eq_invalidIndex_iff hs).mpr htop))
  · obtain ⟨hbest, i, hi, hp, hq⟩ := getTop_of_nonempty hs hf
    exact ⟨hside ▸ hbest, i, ((hmem i).mp hi).1, ((hmem i).mp hi).2, hp, hq⟩
  · exact getTop_of_empty hs (Set.not_nonempty_iff_eq_empty.mp hf)

/-- A new bid side of seventy ticks around 100: its bitmap ends inside the second word. -/
def bidsAtHundred : OrderBookSide :=
  fresh .bid 100 (1 / 2) 70 (by norm_num) (by norm_num) (by decide)

theorem create_bidsAtHundred : create .bid 100 (1 / 2) 70 = .ok bidsAtHundred :=
  create_of_pos (by norm_num) (by norm_num) (by decide)

theorem bidsAtHundred_keeps_representation :
    create .bid 100 (1 / 2) 70 = .ok bidsAtHundred ∧
      let s := Run.exec call bidsAtHundred
        [.setLevel 101 3, .setLevel 99 2, .setLevel 500 1, .removeLevel 101]
      ∀ i, s.marked i = true ↔ i < 70 ∧ 0 < s.quantityAtIndex i :=
  ⟨create_bidsAtHundred, (calls_keep_representation create_bidsAtHundred _).1⟩

end OrderBookSide

end TradingEngine
