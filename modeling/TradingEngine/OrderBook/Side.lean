import Mathlib.Data.Rat.Floor
import TradingEngine.Machinery.Bitmap
import TradingEngine.Machinery.Grid

/-!
# OrderBook/Side — one side of the book: a window of levels, a bitmap of those filled, a cached top

`OrderBookSide` keeps `depth` levels of quantity around a base price; index `depth / 2` is the base.
A price outside the window is ignored by every operation.  The nonempty levels are mirrored in a
bitmap of 64-bit words, and the best one is cached in `topIndex`: an insert compares with the cache,
a removal of the top rescans the bitmap.

Prices and quantities are exact rationals.  The geometry of a side (a positive tick, a depth an
array can have) is carried by the structure, so a side that the constructor refuses cannot be built.
-/

namespace TradingEngine

open Grid

/-- `OrderBookSideType`. -/
inductive OrderBookSideType
  | bid
  | ask
  deriving DecidableEq, Repr

/-- `WORD_BITS`. -/
abbrev wordBits : ℕ := 64

/-- `INVALID_INDEX`, the largest `std::size_t`. -/
def invalidIndex : ℕ := 2 ^ 64 - 1

/-- `std::vector<double>::max_size()`: a longer array is refused with `std::length_error`. -/
def maxSize : ℕ := 2 ^ 60 - 1

/-- The number of words that hold one bit for each of `depth` levels. -/
def wordCount (depth : ℕ) : ℕ := (depth + wordBits - 1) / wordBits

theorem div_wordBits_lt {i depth : ℕ} (h : i < depth) : i / wordBits < wordCount depth := by
  simp only [wordCount, wordBits]
  omega

/-- `OrderBookSide`, with the geometry its constructor has checked. -/
structure OrderBookSide where
  side : OrderBookSideType
  basePrice : ℚ
  tickSize : ℚ
  depth : ℕ
  levels : Vector ℚ depth
  nonEmptyWords : Vector (BitVec wordBits) (wordCount depth)
  topIndex : ℕ
  tick_pos : 0 < tickSize
  depth_pos : 0 < depth
  depth_le : depth ≤ maxSize

namespace OrderBookSide

/-- The members as the constructor initialises them: an empty window around `basePrice`. -/
def fresh (side : OrderBookSideType) (basePrice tickSize : ℚ) (depth : ℕ)
    (tick_pos : 0 < tickSize) (depth_pos : 0 < depth) (depth_le : depth ≤ maxSize) :
    OrderBookSide where
  side := side
  basePrice := basePrice
  tickSize := tickSize
  depth := depth
  levels := Vector.replicate depth 0
  nonEmptyWords := Bitmap.empty wordBits (wordCount depth)
  topIndex := invalidIndex
  tick_pos := tick_pos
  depth_pos := depth_pos
  depth_le := depth_le

/-- The constructor.  The arrays are allocated by the member initialisers, so an oversized depth is
refused before the two checks of the body. -/
def create (side : OrderBookSideType) (basePrice tickSize : ℚ) (depth : ℕ) :
    Except String OrderBookSide :=
  if hle : depth ≤ maxSize then
    if ht : 0 < tickSize then
      if hd : 0 < depth then .ok (fresh side basePrice tickSize depth ht hd hle)
      else .error "depth must be positive"
    else .error "tick_size must be positive"
  else .error "cannot create std::vector larger than max_size()"

variable (s : OrderBookSide)

/-- `m_inv_tick_size`. -/
def invTickSize : ℚ := 1 / s.tickSize

/-- `m_center_index`. -/
def centerIndex : ℕ := s.depth / 2

def clear : OrderBookSide :=
  { s with
    levels := Vector.replicate s.depth 0
    nonEmptyWords := Bitmap.empty wordBits (wordCount s.depth)
    topIndex := invalidIndex }

def priceToIndex (price : ℚ) : ℕ :=
  toSize (s.centerIndex + llround ((price - s.basePrice) * s.invTickSize))

def indexToPrice (index : ℕ) : ℚ :=
  s.basePrice + (((index : ℤ) - (s.centerIndex : ℤ) : ℤ) : ℚ) * s.tickSize

def validIndex (index : ℕ) : Bool := index < s.depth

def validPrice (price : ℚ) : Bool := s.validIndex (s.priceToIndex price)

def rangeMinPrice : ℚ := s.indexToPrice 0

def rangeMaxPrice : ℚ := s.indexToPrice (s.depth - 1)

def nearBoundary (price delta : ℚ) : Bool :=
  price ≤ s.rangeMinPrice + delta || price ≥ s.rangeMaxPrice - delta

def inRebaseTriggerZone (price delta : ℚ) : Bool := s.validPrice price && s.nearBoundary price delta

def isBetterTop (index : ℕ) : Bool :=
  if s.topIndex = invalidIndex then true
  else match s.side with
    | .bid => index > s.topIndex
    | .ask => index < s.topIndex

def setNonEmpty (index : ℕ) : OrderBookSide :=
  { s with nonEmptyWords := Bitmap.setBit s.nonEmptyWords index }

def clearNonEmpty (index : ℕ) : OrderBookSide :=
  { s with nonEmptyWords := Bitmap.clearBit s.nonEmptyWords index }

/-- Scan the words from the last one down. -/
def rebuildBidTopFromBitmap : OrderBookSide :=
  { s with
    topIndex :=
      (Bitmap.scanDown s.nonEmptyWords s.depth (wordCount s.depth)).getD invalidIndex }

/-- Scan the words from the first one up. -/
def rebuildAskTopFromBitmap : OrderBookSide :=
  { s with
    topIndex := (Bitmap.scanUp s.nonEmptyWords s.depth (wordCount s.depth)).getD invalidIndex }

def rebuildTopFromBitmap : OrderBookSide :=
  match s.side with
  | .bid => s.rebuildBidTopFromBitmap
  | .ask => s.rebuildAskTopFromBitmap

/-- `m_levels[index] = quantity`. -/
def writeLevel (index : ℕ) (quantity : ℚ) (h : index < s.depth) : OrderBookSide :=
  { s with levels := s.levels.set index quantity }

/-- A positive quantity marks the level and may improve the top; any other unmarks it, and rescans
if it was the top. -/
def setLevel (price quantity : ℚ) : OrderBookSide :=
  let index := s.priceToIndex price
  if h : index < s.depth then
    let s' := s.writeLevel index quantity h
    if 0 < quantity then
      let s' := s'.setNonEmpty index
      if s'.isBetterTop index then { s' with topIndex := index } else s'
    else
      let s' := s'.clearNonEmpty index
      if index = s'.topIndex then s'.rebuildTopFromBitmap else s'
  else s

def removeLevel (price : ℚ) : OrderBookSide := s.setLevel price 0

def quantityAtIndex (index : ℕ) : ℚ := s.levels[index]?.getD 0

def getQuantity (price : ℚ) : ℚ :=
  let index := s.priceToIndex price
  if index < s.depth then s.quantityAtIndex index else 0

def hasTop : Bool := s.topIndex ≠ invalidIndex

def getTopPrice : ℚ := if s.topIndex = invalidIndex then 0 else s.indexToPrice s.topIndex

def getTopQuantity : ℚ := if s.topIndex = invalidIndex then 0 else s.quantityAtIndex s.topIndex

def resetBasePrice (newBasePrice : ℚ) : OrderBookSide :=
  { s with basePrice := newBasePrice }.clear

/-- One turn of the loop of `move_to_new_base_price`: level `i` of the old side, written to the new
side under its price. -/
def moveLevel (newSide : OrderBookSide) (i : ℕ) : OrderBookSide :=
  if s.quantityAtIndex i ≤ 0 then newSide
  else newSide.setLevel (s.indexToPrice i) (s.quantityAtIndex i)

def moveToNewBasePrice (newBasePrice : ℚ) : OrderBookSide :=
  (List.range s.depth).foldl s.moveLevel
    (fresh s.side newBasePrice s.tickSize s.depth s.tick_pos s.depth_pos s.depth_le)

/-- The bit of `m_non_empty_words` that mirrors level `i`. -/
def marked (i : ℕ) : Bool := Bitmap.test s.nonEmptyWords i

/-! ## What no operation changes

Side, tick and depth are fixed for life, and only the two base-price operations move the window. -/

/-- What places a side on the grid: its type, its base, its tick and its depth. -/
def geometry : OrderBookSideType × ℚ × ℚ × ℕ := (s.side, s.basePrice, s.tickSize, s.depth)

theorem rebuildTopFromBitmap_geometry : s.rebuildTopFromBitmap.geometry = s.geometry := by
  rw [rebuildTopFromBitmap]
  split <;> rfl

theorem setLevel_geometry (price quantity : ℚ) :
    (s.setLevel price quantity).geometry = s.geometry := by
  unfold setLevel
  dsimp only
  split_ifs
  · rfl
  · rfl
  · exact rebuildTopFromBitmap_geometry _
  · rfl
  · rfl

@[simp] theorem setLevel_side (price quantity : ℚ) : (s.setLevel price quantity).side = s.side :=
  congrArg (·.1) (s.setLevel_geometry price quantity)

@[simp] theorem setLevel_basePrice (price quantity : ℚ) :
    (s.setLevel price quantity).basePrice = s.basePrice :=
  congrArg (·.2.1) (s.setLevel_geometry price quantity)

@[simp] theorem setLevel_tickSize (price quantity : ℚ) :
    (s.setLevel price quantity).tickSize = s.tickSize :=
  congrArg (·.2.2.1) (s.setLevel_geometry price quantity)

@[simp] theorem setLevel_depth (price quantity : ℚ) : (s.setLevel price quantity).depth = s.depth :=
  congrArg (·.2.2.2) (s.setLevel_geometry price quantity)

/-- A fold of level moves stays on the geometry of the side it started from. -/
theorem foldl_moveLevel_geometry (newSide : OrderBookSide) (is : List ℕ) :
    (is.foldl s.moveLevel newSide).geometry = newSide.geometry := by
  induction is generalizing newSide with
  | nil => rfl
  | cons i is ih =>
    rw [List.foldl_cons, ih, moveLevel]
    split
    · rfl
    · exact setLevel_geometry _ _ _

theorem moveToNewBasePrice_geometry (b : ℚ) :
    (s.moveToNewBasePrice b).geometry = (s.side, b, s.tickSize, s.depth) :=
  s.foldl_moveLevel_geometry _ _

@[simp] theorem moveToNewBasePrice_side (b : ℚ) : (s.moveToNewBasePrice b).side = s.side :=
  congrArg (·.1) (s.moveToNewBasePrice_geometry b)

@[simp] theorem moveToNewBasePrice_basePrice (b : ℚ) : (s.moveToNewBasePrice b).basePrice = b :=
  congrArg (·.2.1) (s.moveToNewBasePrice_geometry b)

@[simp] theorem moveToNewBasePrice_tickSize (b : ℚ) :
    (s.moveToNewBasePrice b).tickSize = s.tickSize :=
  congrArg (·.2.2.1) (s.moveToNewBasePrice_geometry b)

@[simp] theorem moveToNewBasePrice_depth (b : ℚ) : (s.moveToNewBasePrice b).depth = s.depth :=
  congrArg (·.2.2.2) (s.moveToNewBasePrice_geometry b)

/-- **Equal geometry indexes equally.** -/
theorem priceToIndex_congr {s t : OrderBookSide} (h : s.geometry = t.geometry) (price : ℚ) :
    s.priceToIndex price = t.priceToIndex price := by
  simp only [geometry, Prod.mk.injEq] at h
  simp only [priceToIndex, centerIndex, invTickSize, h]

theorem indexToPrice_congr {s t : OrderBookSide} (h : s.geometry = t.geometry) (i : ℕ) :
    s.indexToPrice i = t.indexToPrice i := by
  simp only [geometry, Prod.mk.injEq] at h
  simp only [indexToPrice, centerIndex, h]

/-! ## Reading a side back -/

theorem lt_depth_of_quantityAtIndex_ne_zero {i : ℕ} (h : s.quantityAtIndex i ≠ 0) :
    i < s.depth := by
  by_contra hi
  exact h (by simp [quantityAtIndex, Nat.le_of_not_lt hi])

theorem quantityAtIndex_writeLevel {i : ℕ} (h : i < s.depth) (q : ℚ) (j : ℕ) :
    (s.writeLevel i q h).quantityAtIndex j = if j = i then q else s.quantityAtIndex j := by
  change (s.levels.set i q h)[j]?.getD 0 = _
  by_cases hij : j = i
  · rw [if_pos hij, hij, Vector.getElem?_set_self h, Option.getD_some]
  · rw [if_neg hij, Vector.getElem?_set_ne h (Ne.symm hij), quantityAtIndex]

@[simp] theorem quantityAtIndex_rebuildTopFromBitmap (j : ℕ) :
    s.rebuildTopFromBitmap.quantityAtIndex j = s.quantityAtIndex j := by
  rw [rebuildTopFromBitmap]
  split <;> rfl

@[simp] theorem marked_rebuildTopFromBitmap (j : ℕ) :
    s.rebuildTopFromBitmap.marked j = s.marked j := by
  rw [rebuildTopFromBitmap]
  split <;> rfl

theorem marked_setNonEmpty {i : ℕ} (h : i < s.depth) (j : ℕ) :
    (s.setNonEmpty i).marked j = true ↔ j = i ∨ s.marked j = true :=
  Bitmap.test_setBit (by decide) s.nonEmptyWords (div_wordBits_lt h) j

theorem marked_clearNonEmpty {i : ℕ} (h : i < s.depth) (j : ℕ) :
    (s.clearNonEmpty i).marked j = true ↔ j ≠ i ∧ s.marked j = true :=
  Bitmap.test_clearBit (by decide) s.nonEmptyWords (div_wordBits_lt h) j

/-- A price outside the window changes nothing. -/
theorem setLevel_of_le {price : ℚ} (h : s.depth ≤ s.priceToIndex price) (quantity : ℚ) :
    s.setLevel price quantity = s := by
  rw [setLevel, dif_neg (Nat.not_lt.mpr h)]

/-- A positive quantity, inside the window. -/
theorem setLevel_of_pos {price quantity : ℚ} (h : s.priceToIndex price < s.depth)
    (hq : 0 < quantity) :
    s.setLevel price quantity =
      let s' := (s.writeLevel (s.priceToIndex price) quantity h).setNonEmpty (s.priceToIndex price)
      if s.isBetterTop (s.priceToIndex price) then { s' with topIndex := s.priceToIndex price }
      else s' := by
  rw [setLevel]
  simp only [dif_pos h, if_pos hq]
  rfl

/-- Any other quantity, inside the window. -/
theorem setLevel_of_nonpos {price quantity : ℚ} (h : s.priceToIndex price < s.depth)
    (hq : quantity ≤ 0) :
    s.setLevel price quantity =
      let s' :=
        (s.writeLevel (s.priceToIndex price) quantity h).clearNonEmpty (s.priceToIndex price)
      if s.priceToIndex price = s.topIndex then s'.rebuildTopFromBitmap else s' := by
  rw [setLevel]
  simp only [dif_pos h, if_neg (not_lt.mpr hq)]
  rfl

/-- **What a write does to the levels.** -/
theorem quantityAtIndex_setLevel {price : ℚ} (h : s.priceToIndex price < s.depth) (quantity : ℚ)
    (j : ℕ) :
    (s.setLevel price quantity).quantityAtIndex j =
      if j = s.priceToIndex price then quantity else s.quantityAtIndex j := by
  have hwrite := s.quantityAtIndex_writeLevel h quantity j
  rcases lt_or_ge 0 quantity with hq | hq
  · rw [s.setLevel_of_pos h hq]
    dsimp only
    split <;> exact hwrite
  · rw [s.setLevel_of_nonpos h hq]
    dsimp only
    split
    · rw [quantityAtIndex_rebuildTopFromBitmap]
      exact hwrite
    · exact hwrite

/-- **What a write does to the bitmap.** -/
theorem marked_setLevel {price : ℚ} (h : s.priceToIndex price < s.depth) (quantity : ℚ) (j : ℕ) :
    (s.setLevel price quantity).marked j = true ↔
      if j = s.priceToIndex price then 0 < quantity else s.marked j = true := by
  rcases lt_or_ge 0 quantity with hq | hq
  · have hmark := (s.writeLevel _ quantity h).marked_setNonEmpty h j
    have hgoal : ((s.writeLevel _ quantity h).setNonEmpty (s.priceToIndex price)).marked j = true ↔
        if j = s.priceToIndex price then 0 < quantity else s.marked j = true := by
      rw [hmark]
      by_cases hj : j = s.priceToIndex price
      · simp [hj, hq]
      · simp only [hj, false_or, if_false]
        exact Iff.rfl
    rw [s.setLevel_of_pos h hq]
    dsimp only
    split <;> exact hgoal
  · have hmark := (s.writeLevel _ quantity h).marked_clearNonEmpty h j
    have hgoal :
        ((s.writeLevel _ quantity h).clearNonEmpty (s.priceToIndex price)).marked j = true ↔
          if j = s.priceToIndex price then 0 < quantity else s.marked j = true := by
      rw [hmark]
      by_cases hj : j = s.priceToIndex price
      · simp [hj, not_lt.mpr hq]
      · simp only [hj, ne_eq, not_false_eq_true, true_and, if_false]
        exact Iff.rfl
    rw [s.setLevel_of_nonpos h hq]
    dsimp only
    split
    · rw [marked_rebuildTopFromBitmap]
      exact hgoal
    · exact hgoal

@[simp] theorem quantityAtIndex_fresh {side : OrderBookSideType} {b t : ℚ} {d : ℕ} (ht : 0 < t)
    (hd : 0 < d) (hle : d ≤ maxSize) (j : ℕ) :
    (fresh side b t d ht hd hle).quantityAtIndex j = 0 := by
  change (Vector.replicate d (0 : ℚ))[j]?.getD 0 = 0
  by_cases hj : j < d
  · simp [hj]
  · simp [Nat.le_of_not_lt hj]

@[simp] theorem marked_fresh {side : OrderBookSideType} {b t : ℚ} {d : ℕ} (ht : 0 < t) (hd : 0 < d)
    (hle : d ≤ maxSize) (j : ℕ) : (fresh side b t d ht hd hle).marked j = false :=
  Bitmap.test_empty j

/-- A cleared side is a fresh one. -/
theorem clear_eq_fresh :
    s.clear = fresh s.side s.basePrice s.tickSize s.depth s.tick_pos s.depth_pos s.depth_le := rfl

end OrderBookSide

end TradingEngine
