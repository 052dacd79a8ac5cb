import Mathlib.Data.Rat.Floor
import Mathlib.Algebra.BigOperators.Intervals
import Mathlib.Algebra.BigOperators.Group.List.Basic
import Mathlib.Tactic.Ring

/-!
# VolumeStat/VolumeStat — traded volume by price

`VolumeStat` keeps one bucket for each whole price, from 0 on, with the trades of that price in
order of arrival and the two sums over them.  The lowest and the highest price with a trade bound
the loops over the buckets.  Timestamps are nanoseconds in a `size_t`, and their differences wrap.

`none` is an access outside the vector.
-/

namespace TradingEngine

/-- `TradeUpdate`, as far as a volume counts it. -/
structure TradeUpdate where
  price : ℚ
  quantity : ℚ
  isBuy : Bool
  timestamp : UInt64
  deriving DecidableEq, Repr

/-- `(size_t)price`. -/
def priceIndex (price : ℚ) : ℕ := ⌊price⌋.toNat

/-- The index of a trade's bucket. -/
def TradeUpdate.index (trade : TradeUpdate) : ℕ := priceIndex trade.price

/-- `TradeVolumeAtPrice`. -/
structure TradeVolumeAtPrice where
  price : ℚ := 0
  totalBuyVolume : ℚ := 0
  totalSellVolume : ℚ := 0
  trades : List TradeUpdate := []

namespace TradeVolumeAtPrice

def construct : TradeVolumeAtPrice := {}

variable (b : TradeVolumeAtPrice)

def addVolume (trade : TradeUpdate) : TradeVolumeAtPrice :=
  { price := trade.index
    totalBuyVolume := if trade.isBuy then b.totalBuyVolume + trade.quantity else b.totalBuyVolume
    totalSellVolume :=
      if trade.isBuy then b.totalSellVolume else b.totalSellVolume + trade.quantity
    trades := b.trades ++ [trade] }

/-- `time_diff > duration`. -/
def isOld (now duration : UInt64) (trade : TradeUpdate) : Bool := now - trade.timestamp > duration

/-- The loop of `remove_old_trades`, which pops the trades in front. -/
def popOldTrades (now duration : UInt64) : List TradeUpdate → TradeVolumeAtPrice →
    TradeVolumeAtPrice
  | [], b => b
  | trade :: trades, b =>
    if isOld now duration trade then
      popOldTrades now duration trades
        { b with
          totalBuyVolume :=
            if trade.isBuy then b.totalBuyVolume - trade.quantity else b.totalBuyVolume
          totalSellVolume :=
            if trade.isBuy then b.totalSellVolume else b.totalSellVolume - trade.quantity
          trades := trades }
    else b

def removeOldTrades (now durationInSeconds : UInt64) : TradeVolumeAtPrice :=
  popOldTrades now (durationInSeconds * 1000000000) b.trades b

end TradeVolumeAtPrice

/-- `VolumeStat`. -/
structure VolumeStat where
  tradeVolumes : List TradeVolumeAtPrice
  maxPriceIndex : ℕ
  minPriceIndex : ℕ

/-- What `get_data` puts into its `Json`. -/
structure VolumeData where
  trades : List (ℚ × ℚ × ℚ) := []
  totalBuyVolume : ℚ := 0
  totalSellVolume : ℚ := 0

/-- `std::vector<TradeVolumeAtPrice>::max_size()`, for elements of 104 bytes. -/
def maxBuckets : ℕ := (2 ^ 63 - 1) / 104

namespace VolumeStat

/-- The constructors.  `reserve` adds no element, so `size() - 1` is the largest `size_t`. -/
def construct : VolumeStat := ⟨[], 0, 2 ^ 64 - 1⟩

variable (v : VolumeStat)

/-- The bucket of an index; a new one behind the end. -/
def bucketAt (k : ℕ) : TradeVolumeAtPrice := (v.tradeVolumes[k]?).getD .construct

/-- `m_trade_volumes.resize(n)`, which throws `std::length_error` behind `max_size()`. -/
def resize (n : ℕ) : Except String (List TradeVolumeAtPrice) :=
  if n ≤ maxBuckets then
    .ok (v.tradeVolumes.take n ++ List.replicate (n - v.tradeVolumes.length) .construct)
  else .error "vector::_M_default_append"

/-- The buckets, after the `resize` that an index needs. -/
def reach (i : ℕ) : Except String (List TradeVolumeAtPrice) :=
  if i ≥ v.tradeVolumes.length then v.resize (i + 1) else .ok v.tradeVolumes

def addTradeVolume (trade : TradeUpdate) : Except String VolumeStat :=
  (v.reach trade.index).map fun tradeVolumes =>
    { tradeVolumes := tradeVolumes.modify trade.index (·.addVolume trade)
      maxPriceIndex := max v.maxPriceIndex trade.index
      minPriceIndex := min v.minPriceIndex trade.index }

/-- `f` on the elements from `low` on, `n` of them. -/
def updateRange {α : Type*} (f : α → α) : ℕ → ℕ → List α → Option (List α)
  | _, 0, bs => some bs
  | low, n + 1, bs => do
    let b ← bs[low]?
    updateRange f (low + 1) n (bs.set low (f b))

/-- `remove_old_volumes`, at a time. -/
def removeOldVolumes (now durationInSeconds : UInt64) : Option VolumeStat :=
  (updateRange (·.removeOldTrades now durationInSeconds) v.minPriceIndex
    (v.maxPriceIndex + 1 - v.minPriceIndex) v.tradeVolumes).map fun tradeVolumes =>
      { v with tradeVolumes := tradeVolumes }

def getTradeVolumeAtPrice (price : ℚ) : Option TradeVolumeAtPrice :=
  if priceIndex price ≤ v.minPriceIndex ∨ priceIndex price ≥ v.maxPriceIndex then none
  else v.tradeVolumes[priceIndex price]?

/-- One turn of the loop of `get_data`. -/
def countBucket (minVolume : ℚ) (i : ℕ) (b : TradeVolumeAtPrice) (data : VolumeData) : VolumeData :=
  if b.totalBuyVolume ≤ minVolume ∧ b.totalSellVolume ≤ minVolume then data
  else
    { trades := data.trades ++ [((i : ℚ), b.totalBuyVolume, b.totalSellVolume)]
      totalBuyVolume := data.totalBuyVolume + b.totalBuyVolume
      totalSellVolume := data.totalSellVolume + b.totalSellVolume }

/-- The loop of `get_data`, from an index down. -/
def getDataFrom (minVolume : ℚ) : ℕ → VolumeData → Option VolumeData
  | 0, data =>
    -- behind index 0, `i--` gives the largest `size_t`: not below the minimum, and no index
    if 0 ≥ v.minPriceIndex then none else some data
  | i + 1, data =>
    if i + 1 ≥ v.minPriceIndex then do
      let b ← v.tradeVolumes[i + 1]?
      getDataFrom minVolume i (countBucket minVolume (i + 1) b data)
    else some data

def getData (minVolume : ℚ) : Option VolumeData := v.getDataFrom minVolume v.maxPriceIndex {}

/-! ## What the calls do to the buckets -/

variable {v}

theorem getElem?_of_lt {k : ℕ} (h : k < v.tradeVolumes.length) :
    v.tradeVolumes[k]? = some (v.bucketAt k) := by
  rw [bucketAt, List.getElem?_eq_getElem h]
  rfl

theorem reach_spec {i : ℕ} (h : i < maxBuckets) :
    ∃ bs, v.reach i = .ok bs ∧ bs.length = max v.tradeVolumes.length (i + 1) ∧
      ∀ k, (bs[k]?).getD .construct = v.bucketAt k := by
  rw [reach]
  split
  · refine ⟨_, by rw [resize, if_pos (by omega)], ?_, fun k => ?_⟩
    · rw [List.length_append, List.length_take, List.length_replicate]
      omega
    · rw [List.take_of_length_le (by omega), List.getElem?_append, bucketAt]
      split
      · rfl
      · rw [List.getElem?_replicate, List.getElem?_eq_none (by omega)]
        split <;> rfl
  · exact ⟨_, rfl, by omega, fun k => rfl⟩

/-- **A trade goes into its bucket**; the vector is made long enough for it. -/
theorem addTradeVolume_spec {trade : TradeUpdate} (h : trade.index < maxBuckets) :
    ∃ v', v.addTradeVolume trade = .ok v' ∧
      v'.maxPriceIndex = max v.maxPriceIndex trade.index ∧
      v'.minPriceIndex = min v.minPriceIndex trade.index ∧
      v'.tradeVolumes.length = max v.tradeVolumes.length (trade.index + 1) ∧
      ∀ k, v'.bucketAt k =
        if k = trade.index then (v.bucketAt k).addVolume trade else v.bucketAt k := by
  obtain ⟨bs, hbs, hlength, hget⟩ := v.reach_spec h
  refine ⟨_, by rw [addTradeVolume, hbs]; rfl, rfl, rfl, ?_, fun k => ?_⟩
  · exact (List.length_modify ..).trans hlength
  · rw [← hget, bucketAt, List.getElem?_modify]
    rcases eq_or_ne k trade.index with rfl | hne
    · rw [if_pos rfl, List.getElem?_eq_getElem (by omega)]
      simp
    · simp [hne, hne.symm]

/-- …unless it would be longer than a vector can be. -/
theorem addTradeVolume_error {trade : TradeUpdate} (h : ¬ trade.index < maxBuckets)
    (hle : v.tradeVolumes.length ≤ maxBuckets) :
    v.addTradeVolume trade = .error "vector::_M_default_append" := by
  rw [addTradeVolume, reach, if_pos (by omega), resize, if_neg (by omega)]
  rfl

/-- **An interval of the vector is updated.** -/
theorem updateRange_spec {α : Type*} (f : α → α) {low n : ℕ} {bs : List α}
    (h : n = 0 ∨ low + n ≤ bs.length) :
    ∃ bs', updateRange f low n bs = some bs' ∧ bs'.length = bs.length ∧
      ∀ k, bs'[k]? = if low ≤ k ∧ k < low + n then (bs[k]?).map f else bs[k]? := by
  induction n generalizing low bs with
  | zero => exact ⟨bs, rfl, rfl, fun k => by rw [if_neg (by omega)]⟩
  | succ n ih =>
    have hlt : low < bs.length := by omega
    have hlow : bs[low]? = some bs[low] := List.getElem?_eq_getElem hlt
    have hrest : n = 0 ∨ low + 1 + n ≤ (bs.set low (f bs[low])).length := by
      rw [List.length_set]
      omega
    obtain ⟨bs', hfold, hlength, hget⟩ := ih hrest
    refine ⟨bs', ?_, hlength.trans List.length_set, fun k => ?_⟩
    · rw [updateRange, hlow]
      exact hfold
    · rw [hget, List.getElem?_set]
      rcases eq_or_ne low k with rfl | hne
      · rw [if_neg (by omega), if_pos rfl, if_pos (by omega), if_pos (by omega), hlow]
        rfl
      · rw [if_neg hne]
        by_cases hin : low + 1 ≤ k ∧ k < low + 1 + n
        · rw [if_pos hin, if_pos (by omega)]
        · rw [if_neg hin, if_neg (by omega)]

/-- **The old trades of every bucket in use are removed.** -/
theorem removeOldVolumes_spec (now d : UInt64)
    (h : v.maxPriceIndex < v.tradeVolumes.length ∨ v.maxPriceIndex < v.minPriceIndex) :
    ∃ v', v.removeOldVolumes now d = some v' ∧ v'.maxPriceIndex = v.maxPriceIndex ∧
      v'.minPriceIndex = v.minPriceIndex ∧ v'.tradeVolumes.length = v.tradeVolumes.length ∧
      ∀ k, v'.bucketAt k = if v.minPriceIndex ≤ k ∧ k ≤ v.maxPriceIndex then
        (v.bucketAt k).removeOldTrades now d else v.bucketAt k := by
  obtain ⟨bs, hbs, hlength, hget⟩ := @updateRange_spec _ (TradeVolumeAtPrice.removeOldTrades · now d)
    v.minPriceIndex (v.maxPriceIndex + 1 - v.minPriceIndex) v.tradeVolumes (by omega)
  refine ⟨{ v with tradeVolumes := bs }, by rw [removeOldVolumes, hbs]; rfl, rfl, rfl, hlength,
    fun k => ?_⟩
  have hin : v.minPriceIndex ≤ k ∧ k < v.minPriceIndex + (v.maxPriceIndex + 1 - v.minPriceIndex) ↔
      v.minPriceIndex ≤ k ∧ k ≤ v.maxPriceIndex := by omega
  rw [bucketAt, hget]
  simp only [hin]
  split
  · rw [bucketAt]
    cases v.tradeVolumes[k]? <;> rfl
  · rfl

/-- What `get_data` counts of a bucket. -/
def counted (minVolume : ℚ) (b : TradeVolumeAtPrice) (total : ℚ) : ℚ :=
  if b.totalBuyVolume ≤ minVolume ∧ b.totalSellVolume ≤ minVolume then 0 else total

/-- **The loop of `get_data`** adds up the buckets down to the minimum. -/
theorem getDataFrom_spec (minVolume : ℚ) (hmin : v.minPriceIndex ≠ 0) {i : ℕ}
    (hi : i < v.tradeVolumes.length ∨ i < v.minPriceIndex) (data : VolumeData) :
    ∃ data', v.getDataFrom minVolume i data = some data' ∧
      data'.totalBuyVolume = data.totalBuyVolume + ∑ k ∈ Finset.Icc v.minPriceIndex i,
        counted minVolume (v.bucketAt k) (v.bucketAt k).totalBuyVolume ∧
      data'.totalSellVolume = data.totalSellVolume + ∑ k ∈ Finset.Icc v.minPriceIndex i,
        counted minVolume (v.bucketAt k) (v.bucketAt k).totalSellVolume := by
  induction i generalizing data with
  | zero =>
    refine ⟨data, by rw [getDataFrom, if_neg (by omega)], ?_, ?_⟩
    · rw [Finset.Icc_eq_empty (by omega), Finset.sum_empty, add_zero]
    · rw [Finset.Icc_eq_empty (by omega), Finset.sum_empty, add_zero]
  | succ i ih =>
    rw [getDataFrom]
    split
    · rename_i hle
      obtain ⟨data', hdata, hbuy, hsell⟩ :=
        ih (by omega) (countBucket minVolume (i + 1) (v.bucketAt (i + 1)) data)
      refine ⟨data', by rw [getElem?_of_lt (by omega)]; exact hdata, ?_, ?_⟩
      · rw [hbuy, Finset.sum_Icc_succ_top hle, countBucket, counted]
        split
        · rw [add_zero]
        · ring
      · rw [hsell, Finset.sum_Icc_succ_top hle, countBucket, counted]
        split
        · rw [add_zero]
        · ring
    · refine ⟨data, rfl, ?_, ?_⟩
      · rw [Finset.Icc_eq_empty (by omega), Finset.sum_empty, add_zero]
      · rw [Finset.Icc_eq_empty (by omega), Finset.sum_empty, add_zero]

/-- **With bucket 0 in use, the loop leaves the vector.** -/
theorem getDataFrom_eq_none (minVolume : ℚ) (hmin : v.minPriceIndex = 0) (i : ℕ)
    (data : VolumeData) : v.getDataFrom minVolume i data = none := by
  induction i generalizing data with
  | zero => rw [getDataFrom, if_pos (by omega)]
  | succ i ih =>
    rw [getDataFrom, if_pos (by omega)]
    cases v.tradeVolumes[i + 1]? with
    | none => rfl
    | some b => exact ih _

end VolumeStat

end TradingEngine
