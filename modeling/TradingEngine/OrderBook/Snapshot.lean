import TradingEngine.Instrument

/-!
# OrderBook/Snapshot — the best levels of a book, as they are passed around

A snapshot object comes from a pool and keeps its two vectors for life; `bidsSize` and `asksSize`
count the entries in use.
-/

namespace TradingEngine

/-- `OrderBookLevel`. -/
structure OrderBookLevel where
  price : ℚ := 0
  quantity : ℚ := 0
  deriving DecidableEq

/-- `OrderBookSnapShot`; the entries in use are inside the vectors. -/
structure OrderBookSnapShot where
  instrument : Option Instrument
  bids : List OrderBookLevel
  asks : List OrderBookLevel
  bidsSize : ℕ
  asksSize : ℕ
  maxLevels : ℕ
  bidsSize_le : bidsSize ≤ bids.length
  asksSize_le : asksSize ≤ asks.length

namespace OrderBookSnapShot

variable (s : OrderBookSnapShot)

/-- The bids in use. -/
def bidLevels : List OrderBookLevel := s.bids.take s.bidsSize

/-- The asks in use. -/
def askLevels : List OrderBookLevel := s.asks.take s.asksSize

def getBestBid : ℚ := (s.bidLevels.head?.map (·.price)).getD 0

def getBestAsk : ℚ := (s.askLevels.head?.map (·.price)).getD 0

def getMidPrice : ℚ :=
  if s.bidsSize = 0 ∨ s.asksSize = 0 then 0 else (s.getBestBid + s.getBestAsk) / 2

/-- A snapshot whose vectors are all in use. -/
def ofLevels (instrument : Option Instrument) (bids asks : List OrderBookLevel) :
    OrderBookSnapShot where
  instrument := instrument
  bids := bids
  asks := asks
  bidsSize := bids.length
  asksSize := asks.length
  maxLevels := max bids.length asks.length
  bidsSize_le := le_rfl
  asksSize_le := le_rfl

@[simp] theorem bidLevels_ofLevels (i : Option Instrument) (bids asks : List OrderBookLevel) :
    (ofLevels i bids asks).bidLevels = bids := List.take_length

@[simp] theorem askLevels_ofLevels (i : Option Instrument) (bids asks : List OrderBookLevel) :
    (ofLevels i bids asks).askLevels = asks := List.take_length

/-! ## Filling a snapshot -/

/-- The number of entries that the constructor gives the two vectors. -/
def capacity : ℕ := 200

/-- `OrderBookSnapShot::OrderBookSnapShot`. -/
def construct : OrderBookSnapShot where
  instrument := none
  bids := List.replicate capacity {}
  asks := List.replicate capacity {}
  bidsSize := 0
  asksSize := 0
  maxLevels := capacity
  bidsSize_le := Nat.zero_le _
  asksSize_le := Nat.zero_le _

def updateInstrument (instrument : Option Instrument) : OrderBookSnapShot :=
  { s with instrument := instrument }

/-- `resize`: the vectors keep their entries. -/
def resize (newSize : ℕ) : OrderBookSnapShot := { s with maxLevels := newSize }

def refresh : OrderBookSnapShot :=
  { s with
    bidsSize := 0
    asksSize := 0
    bidsSize_le := Nat.zero_le _
    asksSize_le := Nat.zero_le _ }

/-- `add_bid`; `none` if the entry is behind the end of the vector. -/
def addBid (price quantity : ℚ) : Option OrderBookSnapShot :=
  if s.maxLevels ≤ s.bidsSize then some s
  else if h : s.bidsSize < s.bids.length then
    some
      { s with
        bids := s.bids.set s.bidsSize ⟨price, quantity⟩
        bidsSize := s.bidsSize + 1
        bidsSize_le := by rwa [List.length_set] }
  else none

/-- `add_ask`. -/
def addAsk (price quantity : ℚ) : Option OrderBookSnapShot :=
  if s.maxLevels ≤ s.asksSize then some s
  else if h : s.asksSize < s.asks.length then
    some
      { s with
        asks := s.asks.set s.asksSize ⟨price, quantity⟩
        asksSize := s.asksSize + 1
        asksSize_le := by rwa [List.length_set] }
  else none

/-- An object of the pool has the vectors of its constructor. -/
structure Pooled : Prop where
  bids_length : s.bids.length = capacity
  asks_length : s.asks.length = capacity

theorem pooled_construct : construct.Pooled := ⟨List.length_replicate, List.length_replicate⟩

theorem length_bidLevels : s.bidLevels.length = s.bidsSize := by
  rw [bidLevels, List.length_take, Nat.min_eq_left s.bidsSize_le]

theorem length_askLevels : s.askLevels.length = s.asksSize := by
  rw [askLevels, List.length_take, Nat.min_eq_left s.asksSize_le]

theorem bidLevels_refresh : s.refresh.bidLevels = [] := List.take_zero

theorem askLevels_refresh : s.refresh.askLevels = [] := List.take_zero

/-- The entries in use, with one more written behind them. -/
theorem take_set_succ {l : List OrderBookLevel} {n : ℕ} (h : n < l.length) (x : OrderBookLevel) :
    (l.set n x).take (n + 1) = l.take n ++ [x] := by
  rw [List.take_succ_eq_append_getElem (by rwa [List.length_set]), List.getElem_set_self,
    List.take_set_of_le le_rfl]

variable {s}

/-- **`add_bid`** appends the level, unless `max_levels` are in use. -/
theorem addBid_spec (hs : s.Pooled) (price quantity : ℚ) :
    (s.maxLevels ≤ s.bidLevels.length → s.addBid price quantity = some s) ∧
      (s.bidLevels.length < s.maxLevels → capacity ≤ s.bidLevels.length →
        s.addBid price quantity = none) ∧
      (s.bidLevels.length < s.maxLevels → s.bidLevels.length < capacity →
        ∃ s', s.addBid price quantity = some s' ∧ s'.Pooled ∧
          s'.bidLevels = s.bidLevels ++ [⟨price, quantity⟩] ∧ s'.askLevels = s.askLevels ∧
          s'.maxLevels = s.maxLevels ∧ s'.instrument = s.instrument) := by
  rw [length_bidLevels, addBid]
  refine ⟨fun h => if_pos h, fun h hfull => ?_, fun h hfree => ?_⟩
  · rw [if_neg (Nat.not_le.mpr h), dif_neg (by rw [hs.bids_length]; omega)]
  · have hlt : s.bidsSize < s.bids.length := by rwa [hs.bids_length]
    rw [if_neg (Nat.not_le.mpr h), dif_pos hlt]
    exact ⟨_, rfl, ⟨by rw [List.length_set, hs.bids_length], hs.asks_length⟩,
      take_set_succ hlt _, rfl, rfl, rfl⟩

/-- **`add_ask`**, likewise. -/
theorem addAsk_spec (hs : s.Pooled) (price quantity : ℚ) :
    (s.maxLevels ≤ s.askLevels.length → s.addAsk price quantity = some s) ∧
      (s.askLevels.length < s.maxLevels → capacity ≤ s.askLevels.length →
        s.addAsk price quantity = none) ∧
      (s.askLevels.length < s.maxLevels → s.askLevels.length < capacity →
        ∃ s', s.addAsk price quantity = some s' ∧ s'.Pooled ∧
          s'.askLevels = s.askLevels ++ [⟨price, quantity⟩] ∧ s'.bidLevels = s.bidLevels ∧
          s'.maxLevels = s.maxLevels ∧ s'.instrument = s.instrument) := by
  rw [length_askLevels, addAsk]
  refine ⟨fun h => if_pos h, fun h hfull => ?_, fun h hfree => ?_⟩
  · rw [if_neg (Nat.not_le.mpr h), dif_neg (by rw [hs.asks_length]; omega)]
  · have hlt : s.asksSize < s.asks.length := by rwa [hs.asks_length]
    rw [if_neg (Nat.not_le.mpr h), dif_pos hlt]
    exact ⟨_, rfl, ⟨hs.bids_length, by rw [List.length_set, hs.asks_length]⟩,
      take_set_succ hlt _, rfl, rfl, rfl⟩

end OrderBookSnapShot

end TradingEngine
