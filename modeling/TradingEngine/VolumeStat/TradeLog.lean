import Mathlib.Algebra.Order.BigOperators.Group.Finset
import TradingEngine.Machinery.Buckets
import TradingEngine.Machinery.Run
import TradingEngine.VolumeStat.VolumeStat

/-!
# VolumeStat/TradeLog — the trades that a `VolumeStat` stands for

A `TradeLog` lists the trades that were recorded, and those that are retained: a trade goes when it
is more than a number of seconds old.  `VolumeStat.Refines` relates it to its log.  Along every run
the statistics agree with the log exactly when every call meets a condition of its own
(`along_meets_iff`): no query needs the lowest or the highest bucket, none needs bucket 0, and no
removal stops at a trade from the future or overflows its duration.
-/

namespace TradingEngine

open Buckets

/-- The trades of a market: all of them, and those that count. -/
structure TradeLog where
  recorded : List TradeUpdate
  retained : List TradeUpdate

/-- A trade is more than a number of seconds old. -/
def TradeUpdate.Expired (now durationInSeconds : UInt64) (trade : TradeUpdate) : Prop :=
  (now.toNat : ℤ) - trade.timestamp.toNat > durationInSeconds.toNat * 1000000000

instance (now durationInSeconds : UInt64) (trade : TradeUpdate) :
    Decidable (trade.Expired now durationInSeconds) :=
  inferInstanceAs (Decidable (_ > _))

/-- The quantities of the buys, or of the sells. -/
def volume (isBuy : Bool) (trades : List TradeUpdate) : ℚ :=
  (trades.map fun trade => if trade.isBuy = isBuy then trade.quantity else 0).sum

namespace TradeLog

variable (log : TradeLog)

def empty : TradeLog := ⟨[], []⟩

def add (trade : TradeUpdate) : TradeLog :=
  ⟨log.recorded ++ [trade], log.retained ++ [trade]⟩

def removeOld (now durationInSeconds : UInt64) : TradeLog :=
  { log with retained := log.retained.filter fun t => ¬ t.Expired now durationInSeconds }

/-- The retained trades of a whole price. -/
def ofIndex (k : ℕ) : List TradeUpdate := bucket TradeUpdate.index k log.retained

end TradeLog

/-- A call on a `VolumeStat`. -/
inductive VolumeCall
  | addTradeVolume (trade : TradeUpdate)
  | removeOldVolumes (now durationInSeconds : UInt64)
  | getData
  | getTradeVolumeAtPrice (price : ℚ)

/-- A `VolumeStat`, beside the trades that it stands for. -/
structure VolumeRun where
  stat : VolumeStat
  log : TradeLog

namespace VolumeRun

/-- A new `VolumeStat`. -/
def start : VolumeRun := ⟨.construct, .empty⟩

/-- Both after a call; a `VolumeStat` that fails is left as it was. -/
def step (s : VolumeRun) : VolumeCall → VolumeRun
  | .addTradeVolume trade => ⟨(s.stat.addTradeVolume trade).toOption.getD s.stat, s.log.add trade⟩
  | .removeOldVolumes now d => ⟨(s.stat.removeOldVolumes now d).getD s.stat, s.log.removeOld now d⟩
  | .getData => s
  | .getTradeVolumeAtPrice _ => s

/-- Prices are not negative, and the trades of one bucket come in the order of their timestamps. -/
def Legal (s : VolumeRun) : VolumeCall → Prop
  | .addTradeVolume trade => 0 ≤ trade.price ∧
      ∀ t ∈ s.log.recorded, t.index = trade.index → t.timestamp ≤ trade.timestamp
  | _ => True

/-- **What a call shall do**: a trade is recorded; exactly the expired trades are removed; the
totals are those of the retained trades; a price at which a trade was recorded has its bucket. -/
def Meets (s : VolumeRun) : VolumeCall → Prop
  | .addTradeVolume trade => ∃ stat, s.stat.addTradeVolume trade = .ok stat
  | .removeOldVolumes now d => ∃ stat, s.stat.removeOldVolumes now d = some stat ∧
      ∀ k, (stat.bucketAt k).trades =
        (s.stat.bucketAt k).trades.filter fun t => ¬ t.Expired now d
  | .getData => ∃ data, s.stat.getData 0 = some data ∧
      data.totalBuyVolume = volume true s.log.retained ∧
      data.totalSellVolume = volume false s.log.retained
  | .getTradeVolumeAtPrice price => (∃ t ∈ s.log.recorded, t.price = price) →
      ∃ b, s.stat.getTradeVolumeAtPrice price = some b ∧ b.price = priceIndex price ∧
        b.totalBuyVolume = volume true (s.log.ofIndex (priceIndex price)) ∧
        b.totalSellVolume = volume false (s.log.ofIndex (priceIndex price))

/-- **When it does**: the vector can be made long enough; in every bucket the first trade that is
not expired is not old for the `size_t` arithmetic; no trade was recorded below 1, and no bucket has
a negative total beside one that is not positive; trades were recorded in a lower and in a higher
bucket. -/
def Condition (s : VolumeRun) : VolumeCall → Prop
  | .addTradeVolume trade => trade.index < maxBuckets
  | .removeOldVolumes now d => ∀ k, ∀ t ∈ ((s.log.ofIndex k).filter fun t => ¬ t.Expired now d).head?,
      now - t.timestamp ≤ d * 1000000000
  | .getData => (∀ t ∈ s.log.recorded, 1 ≤ t.price) ∧
      ∀ k, volume true (s.log.ofIndex k) ≤ 0 → volume false (s.log.ofIndex k) ≤ 0 →
        volume true (s.log.ofIndex k) = 0 ∧ volume false (s.log.ofIndex k) = 0
  | .getTradeVolumeAtPrice price => (∃ t ∈ s.log.recorded, t.price = price) →
      (∃ t ∈ s.log.recorded, t.index < priceIndex price) ∧
        ∃ t ∈ s.log.recorded, priceIndex price < t.index

end VolumeRun

/-! ## A bucket and its trades -/

@[simp] theorem volume_nil (isBuy : Bool) : volume isBuy [] = 0 := rfl

theorem volume_cons (isBuy : Bool) (t : TradeUpdate) (ts : List TradeUpdate) :
    volume isBuy (t :: ts) = (if t.isBuy = isBuy then t.quantity else 0) + volume isBuy ts := by
  rw [volume, List.map_cons, List.sum_cons, volume]

/-- Quantities that are not negative have no negative total. -/
theorem volume_nonneg {trades : List TradeUpdate} (h : ∀ t ∈ trades, 0 ≤ t.quantity)
    (isBuy : Bool) : 0 ≤ volume isBuy trades := by
  refine List.sum_nonneg fun quantity hquantity => ?_
  obtain ⟨t, ht, rfl⟩ := List.mem_map.mp hquantity
  split
  · exact h t ht
  · exact le_refl 0

theorem volume_concat (isBuy : Bool) (ts : List TradeUpdate) (t : TradeUpdate) :
    volume isBuy (ts ++ [t]) = volume isBuy ts + if t.isBuy = isBuy then t.quantity else 0 := by
  simp [volume]

namespace TradeVolumeAtPrice

/-- **A bucket counts its trades.** -/
structure Counts (b : TradeVolumeAtPrice) (ts : List TradeUpdate) : Prop where
  trades_eq : b.trades = ts
  buy_eq : b.totalBuyVolume = volume true ts
  sell_eq : b.totalSellVolume = volume false ts

variable {b : TradeVolumeAtPrice} {ts : List TradeUpdate}

theorem counts_construct : Counts .construct [] := ⟨rfl, rfl, rfl⟩

theorem Counts.addVolume (h : Counts b ts) (t : TradeUpdate) :
    Counts (b.addVolume t) (ts ++ [t]) := by
  obtain ⟨rfl, hbuy, hsell⟩ := h
  refine ⟨rfl, ?_, ?_⟩
  · rw [volume_concat, ← hbuy, TradeVolumeAtPrice.addVolume]
    cases t.isBuy <;> simp
  · rw [volume_concat, ← hsell, TradeVolumeAtPrice.addVolume]
    cases t.isBuy <;> simp

/-- The loop pops as long as the trade in front is old. -/
theorem Counts.popOldTrades {now duration : UInt64} (h : Counts b ts) :
    Counts (popOldTrades now duration ts b) (ts.dropWhile (isOld now duration)) ∧
      (TradeVolumeAtPrice.popOldTrades now duration ts b).price = b.price := by
  induction ts generalizing b with
  | nil => exact ⟨h, rfl⟩
  | cons t ts ih =>
    rw [TradeVolumeAtPrice.popOldTrades]
    split
    · rename_i hold
      rw [List.dropWhile_cons_of_pos hold]
      refine ih ⟨rfl, ?_, ?_⟩
      · have hbuy := h.buy_eq
        rw [volume_cons] at hbuy
        cases hside : t.isBuy <;> simp [hbuy, hside]
      · have hsell := h.sell_eq
        rw [volume_cons] at hsell
        cases hside : t.isBuy <;> simp [hsell, hside]
    · rename_i hold
      rw [List.dropWhile_cons_of_neg hold]
      exact ⟨h, rfl⟩

theorem Counts.removeOldTrades (now d : UInt64) (h : Counts b ts) :
    Counts (b.removeOldTrades now d) (ts.dropWhile (isOld now (d * 1000000000))) ∧
      (b.removeOldTrades now d).price = b.price := by
  rw [TradeVolumeAtPrice.removeOldTrades, h.trades_eq]
  exact h.popOldTrades

end TradeVolumeAtPrice

/-! ## Which trades are old -/

/-- **An expired trade is old for the machine arithmetic too.** -/
theorem TradeUpdate.Expired.isOld {now d : UInt64} {t : TradeUpdate} (h : t.Expired now d) :
    TradeVolumeAtPrice.isOld now (d * 1000000000) t = true := by
  rw [TradeUpdate.Expired] at h
  rw [TradeVolumeAtPrice.isOld, decide_eq_true_iff, gt_iff_lt, UInt64.lt_iff_toNat_lt,
    UInt64.toNat_sub, UInt64.toNat_mul]
  have hnow := now.toNat_lt
  have hconst : (1000000000 : UInt64).toNat = 1000000000 := rfl
  rw [hconst]
  omega

/-- Of two trades, the one with the lower timestamp expires first. -/
theorem TradeUpdate.Expired.mono {now d : UInt64} {t t' : TradeUpdate}
    (hle : t.timestamp ≤ t'.timestamp) (h : t'.Expired now d) : t.Expired now d := by
  rw [TradeUpdate.Expired] at h ⊢
  have hle' := UInt64.le_iff_toNat_le.mp hle
  omega

/-- **What the loop pops of a bucket** is what has expired, exactly when it stops at the first trade
that has not. -/
theorem dropWhile_isOld_iff {now d : UInt64} {ts : List TradeUpdate}
    (hsorted : ts.Pairwise fun t t' => t.timestamp ≤ t'.timestamp) :
    ts.dropWhile (TradeVolumeAtPrice.isOld now (d * 1000000000)) =
        ts.filter (fun t => ¬ t.Expired now d) ↔
      ∀ t ∈ (ts.filter fun t => ¬ t.Expired now d).head?,
        now - t.timestamp ≤ d * 1000000000 := by
  have hfilter : ts.dropWhile (fun t => decide (t.Expired now d)) =
      ts.filter fun t => ¬ t.Expired now d := by
    rw [dropWhile_eq_filter]
    · simp
    · refine hsorted.imp fun hle h => ?_
      exact decide_eq_true ((of_decide_eq_true h).mono hle)
  rw [← hfilter, dropWhile_eq_dropWhile_iff fun t _ h => (of_decide_eq_true h).isOld]
  refine forall₂_congr fun t _ => ?_
  rw [TradeVolumeAtPrice.isOld, decide_eq_false_iff_not, gt_iff_lt, UInt64.not_lt]

/-! ## The statistics stand for a log -/

/-- The indices of the trades that were recorded. -/
def TradeLog.indices (log : TradeLog) : Set ℕ := {k | ∃ t ∈ log.recorded, t.index = k}

/-- **The statistics stand for a log.** -/
structure VolumeStat.Refines (stat : VolumeStat) (log : TradeLog) : Prop where
  length_le : stat.tradeVolumes.length ≤ maxBuckets
  index_lt : ∀ k ∈ log.indices, k < stat.tradeVolumes.length
  retained_sub : ∀ t ∈ log.retained, t ∈ log.recorded
  counts : ∀ k, (stat.bucketAt k).Counts (log.ofIndex k)
  price_eq : ∀ k ∈ log.indices, (stat.bucketAt k).price = k
  bounds : (log.recorded = [] ∧ stat.maxPriceIndex = 0 ∧ stat.minPriceIndex = 2 ^ 64 - 1) ∨
    (IsLeast log.indices stat.minPriceIndex ∧ IsGreatest log.indices stat.maxPriceIndex)
  sorted : ∀ k, (log.ofIndex k).Pairwise fun t t' => t.timestamp ≤ t'.timestamp

namespace TradeLog

variable {log : TradeLog}

theorem indices_add (t : TradeUpdate) : (log.add t).indices = insert t.index log.indices := by
  ext k
  simp only [indices, add, List.mem_append, List.mem_singleton, Set.mem_insert_iff,
    Set.mem_ofPred_eq]
  constructor
  · rintro ⟨t', ht' | rfl, rfl⟩
    · exact .inr ⟨t', ht', rfl⟩
    · exact .inl rfl
  · rintro (rfl | ⟨t', ht', rfl⟩)
    · exact ⟨t, .inr rfl, rfl⟩
    · exact ⟨t', .inl ht', rfl⟩

theorem ofIndex_add (t : TradeUpdate) (k : ℕ) :
    (log.add t).ofIndex k = if t.index = k then log.ofIndex k ++ [t] else log.ofIndex k :=
  bucket_concat ..

theorem ofIndex_removeOld (now d : UInt64) (k : ℕ) :
    (log.removeOld now d).ofIndex k = (log.ofIndex k).filter fun t => ¬ t.Expired now d :=
  bucket_filter _

end TradeLog

namespace VolumeStat.Refines

variable {stat : VolumeStat} {log : TradeLog}

theorem construct : Refines .construct .empty where
  length_le := Nat.zero_le _
  index_lt := fun _ ⟨_, ht, _⟩ => absurd ht List.not_mem_nil
  retained_sub := fun _ ht => ht
  counts := fun _ => TradeVolumeAtPrice.counts_construct
  price_eq := fun _ ⟨_, ht, _⟩ => absurd ht List.not_mem_nil
  bounds := .inl ⟨rfl, rfl, rfl⟩
  sorted := fun _ => .nil

/-- A bucket without a trade is empty. -/
theorem ofIndex_eq_nil (h : Refines stat log) {k : ℕ} (hk : k ∉ log.indices) :
    log.ofIndex k = [] := by
  refine List.eq_nil_iff_forall_not_mem.mpr fun t ht => hk ?_
  obtain ⟨ht, hindex⟩ := mem_bucket.mp ht
  exact ⟨t, h.retained_sub t ht, hindex⟩

theorem mem_Icc (h : Refines stat log) {k : ℕ} (hk : k ∈ log.indices) :
    stat.minPriceIndex ≤ k ∧ k ≤ stat.maxPriceIndex := by
  rcases h.bounds with ⟨hnil, -⟩ | ⟨hleast, hgreatest⟩
  · obtain ⟨t, ht, -⟩ := hk
    rw [hnil] at ht
    cases ht
  · exact ⟨hleast.2 hk, hgreatest.2 hk⟩

/-- The loops over the buckets stay inside the vector. -/
theorem maxPriceIndex_lt (h : Refines stat log) :
    stat.maxPriceIndex < stat.tradeVolumes.length ∨ stat.maxPriceIndex < stat.minPriceIndex := by
  rcases h.bounds with ⟨-, hmax, hmin⟩ | ⟨-, hgreatest⟩
  · rw [hmax, hmin]
    exact .inr (by norm_num)
  · exact .inl (h.index_lt _ hgreatest.1)

/-- **A trade is recorded.** -/
theorem addTradeVolume (h : Refines stat log) {t : TradeUpdate}
    (hlegal : ∀ t' ∈ log.recorded, t'.index = t.index → t'.timestamp ≤ t.timestamp)
    (hindex : t.index < maxBuckets) :
    ∃ stat', stat.addTradeVolume t = .ok stat' ∧ Refines stat' (log.add t) := by
  obtain ⟨stat', hadd, hmax, hmin, hlength, hbucket⟩ := stat.addTradeVolume_spec hindex
  have hle := h.length_le
  refine ⟨stat', hadd, ?_, ?_, ?_, fun k => ?_, ?_, .inr ?_, fun k => ?_⟩
  · omega
  · rw [TradeLog.indices_add, hlength]
    rintro k (rfl | hk)
    · omega
    · have := h.index_lt k hk
      omega
  · intro t' ht'
    rcases List.mem_append.mp ht' with ht' | ht'
    · exact List.mem_append_left _ (h.retained_sub t' ht')
    · exact List.mem_append_right _ ht'
  · rw [hbucket, TradeLog.ofIndex_add]
    rcases eq_or_ne k t.index with rfl | hne
    · rw [if_pos rfl, if_pos rfl]
      exact (h.counts _).addVolume t
    · rw [if_neg hne, if_neg hne.symm]
      exact h.counts k
  · rw [TradeLog.indices_add]
    intro k hk
    rw [hbucket]
    split
    · rename_i heq
      rw [heq]
      rfl
    · rename_i hne
      exact h.price_eq k (hk.resolve_left hne)
  · rw [TradeLog.indices_add, hmax, hmin, max_comm, min_comm]
    rcases h.bounds with ⟨hnil, hmax, hmin⟩ | ⟨hleast, hgreatest⟩
    · have hempty : log.indices = ∅ := by simp [TradeLog.indices, hnil]
      have hbig : maxBuckets ≤ 2 ^ 64 - 1 := by decide
      rw [hempty, hmax, hmin, insert_empty_eq, min_eq_left (by omega), max_eq_left (by omega)]
      exact ⟨isLeast_singleton, isGreatest_singleton⟩
    · exact ⟨hleast.insert t.index, hgreatest.insert t.index⟩
  · rw [TradeLog.ofIndex_add]
    split
    · rename_i heq
      refine List.pairwise_append.mpr ⟨h.sorted k, List.pairwise_singleton .., fun t' ht' t'' ht'' => ?_⟩
      obtain rfl := List.mem_singleton.mp ht''
      obtain ⟨ht', hindex'⟩ := mem_bucket.mp ht'
      exact hlegal t' (h.retained_sub t' ht') (hindex'.trans heq.symm)
    · exact h.sorted k

/-- **Old trades are popped**, in every bucket. -/
theorem removeOldVolumes (h : Refines stat log) (now d : UInt64) :
    ∃ stat', stat.removeOldVolumes now d = some stat' ∧
      stat'.maxPriceIndex = stat.maxPriceIndex ∧ stat'.minPriceIndex = stat.minPriceIndex ∧
      stat'.tradeVolumes.length = stat.tradeVolumes.length ∧
      ∀ k, (stat'.bucketAt k).Counts
          ((log.ofIndex k).dropWhile (TradeVolumeAtPrice.isOld now (d * 1000000000))) ∧
        (stat'.bucketAt k).price = (stat.bucketAt k).price := by
  obtain ⟨stat', hremove, hmax, hmin, hlength, hbucket⟩ :=
    stat.removeOldVolumes_spec now d h.maxPriceIndex_lt
  refine ⟨stat', hremove, hmax, hmin, hlength, fun k => ?_⟩
  rw [hbucket]
  split
  · exact (h.counts k).removeOldTrades now d
  · rename_i hout
    have hnil := h.ofIndex_eq_nil (mt h.mem_Icc hout)
    have hcounts := h.counts k
    rw [hnil] at hcounts ⊢
    exact ⟨hcounts, rfl⟩

/-- **Every removal is exact** exactly when it stops in every bucket where it should. -/
theorem removeOldVolumes_iff (h : Refines stat log) (now d : UInt64) :
    (∃ stat', stat.removeOldVolumes now d = some stat' ∧ ∀ k, (stat'.bucketAt k).trades =
        (stat.bucketAt k).trades.filter fun t => ¬ t.Expired now d) ↔
      ∀ k, ∀ t ∈ ((log.ofIndex k).filter fun t => ¬ t.Expired now d).head?,
        now - t.timestamp ≤ d * 1000000000 := by
  obtain ⟨stat', hremove, -, -, -, hbucket⟩ := h.removeOldVolumes now d
  have htrades : ∀ k, ((stat'.bucketAt k).trades =
      (stat.bucketAt k).trades.filter fun t => ¬ t.Expired now d) ↔
        ∀ t ∈ ((log.ofIndex k).filter fun t => ¬ t.Expired now d).head?,
          now - t.timestamp ≤ d * 1000000000 := fun k => by
    rw [(hbucket k).1.trades_eq, (h.counts k).trades_eq]
    exact dropWhile_isOld_iff (h.sorted k)
  constructor
  · rintro ⟨stat'', hremove', hexact⟩ k
    obtain rfl : stat' = stat'' := Option.some.inj (hremove.symm.trans hremove')
    exact (htrades k).mp (hexact k)
  · exact fun hstop => ⟨stat', hremove, fun k => (htrades k).mpr (hstop k)⟩

/-- …and then the statistics stand for the trades that are left. -/
theorem removeOld (h : Refines stat log) {now d : UInt64}
    (hstop : ∀ k, ∀ t ∈ ((log.ofIndex k).filter fun t => ¬ t.Expired now d).head?,
      now - t.timestamp ≤ d * 1000000000) :
    ∃ stat', stat.removeOldVolumes now d = some stat' ∧ Refines stat' (log.removeOld now d) := by
  obtain ⟨stat', hremove, hmax, hmin, hlength, hbucket⟩ := h.removeOldVolumes now d
  refine ⟨stat', hremove, hlength.trans_le h.length_le, ?_, fun t ht => ?_, fun k => ?_,
    fun k hk => ?_, ?_, fun k => ?_⟩
  · rw [hlength]
    exact h.index_lt
  · exact h.retained_sub t (List.mem_of_mem_filter ht)
  · have hcounts := (hbucket k).1
    rw [(dropWhile_isOld_iff (h.sorted k)).mpr (hstop k)] at hcounts
    rw [TradeLog.ofIndex_removeOld]
    exact hcounts
  · exact (hbucket k).2.trans (h.price_eq k hk)
  · rw [hmax, hmin]
    exact h.bounds
  · rw [TradeLog.ofIndex_removeOld]
    exact (h.sorted k).filter _

/-- The volume of the retained trades is that of the buckets in use. -/
theorem sum_volume (h : Refines stat log) (isBuy : Bool) :
    ∑ k ∈ Finset.Icc stat.minPriceIndex stat.maxPriceIndex, volume isBuy (log.ofIndex k) =
      volume isBuy log.retained :=
  sum_bucket _ fun t ht => Finset.mem_Icc.mpr (h.mem_Icc ⟨t, h.retained_sub t ht, rfl⟩)

/-- What `get_data` leaves out adds to nothing only if each of it is nothing. -/
theorem sum_counted_iff (h : Refines stat log) (isBuy : Bool) :
    ∑ k ∈ Finset.Icc stat.minPriceIndex stat.maxPriceIndex,
        counted 0 (stat.bucketAt k) (volume isBuy (log.ofIndex k)) = volume isBuy log.retained ↔
      ∀ k, volume true (log.ofIndex k) ≤ 0 → volume false (log.ofIndex k) ≤ 0 →
        volume isBuy (log.ofIndex k) = 0 := by
  have hcounted : ∀ k, counted 0 (stat.bucketAt k) (volume isBuy (log.ofIndex k)) =
      if volume true (log.ofIndex k) ≤ 0 ∧ volume false (log.ofIndex k) ≤ 0 then 0
      else volume isBuy (log.ofIndex k) := fun k => by
    rw [counted, (h.counts k).buy_eq, (h.counts k).sell_eq]
  rw [← h.sum_volume isBuy, eq_comm, Finset.sum_eq_sum_iff_of_le]
  · constructor
    · intro heq k hbuy hsell
      by_cases hk : k ∈ log.indices
      · have := heq k (Finset.mem_Icc.mpr (h.mem_Icc hk))
        rwa [hcounted, if_pos ⟨hbuy, hsell⟩] at this
      · rw [h.ofIndex_eq_nil hk, volume_nil]
    · intro hzero k _
      rw [hcounted]
      split
      · rename_i hle
        exact hzero k hle.1 hle.2
      · rfl
  · intro k _
    rw [hcounted]
    split
    · rename_i hle
      cases isBuy
      · exact hle.2
      · exact hle.1
    · exact le_rfl

/-- **`get_data(0)`** is right exactly when no trade was recorded below 1 and no bucket is left out
that holds something. -/
theorem getData_iff (h : Refines stat log) :
    (∃ data, stat.getData 0 = some data ∧ data.totalBuyVolume = volume true log.retained ∧
        data.totalSellVolume = volume false log.retained) ↔
      (∀ t ∈ log.recorded, 1 ≤ t.price) ∧
        ∀ k, volume true (log.ofIndex k) ≤ 0 → volume false (log.ofIndex k) ≤ 0 →
          volume true (log.ofIndex k) = 0 ∧ volume false (log.ofIndex k) = 0 := by
  have hprice : ∀ t : TradeUpdate, 1 ≤ t.price ↔ t.index ≠ 0 := fun t => by
    rw [TradeUpdate.index, priceIndex, ← Nat.pos_iff_ne_zero, Int.lt_toNat, Nat.cast_zero,
      ← Int.add_one_le_iff, zero_add, Int.le_floor, Int.cast_one]
  by_cases hmin : stat.minPriceIndex = 0
  · refine iff_of_false ?_ fun hcond => ?_
    · rintro ⟨data, hdata, -⟩
      rw [VolumeStat.getData, getDataFrom_eq_none 0 hmin] at hdata
      cases hdata
    · rcases h.bounds with ⟨-, -, hinvalid⟩ | ⟨hleast, -⟩
      · rw [hmin] at hinvalid
        exact absurd hinvalid (by norm_num)
      · obtain ⟨t, ht, hindex⟩ := hleast.1
        exact (hprice t).mp (hcond.1 t ht) (hindex.trans hmin)
  · have hpos : ∀ t ∈ log.recorded, 1 ≤ t.price := fun t ht => by
      have hle := (h.mem_Icc ⟨t, ht, rfl⟩).1
      exact (hprice t).mpr (by omega)
    obtain ⟨data, hdata, hbuy, hsell⟩ := stat.getDataFrom_spec 0 hmin h.maxPriceIndex_lt {}
    simp only [(h.counts _).buy_eq, (h.counts _).sell_eq, zero_add] at hbuy hsell
    rw [and_iff_right hpos]
    have hiff : (data.totalBuyVolume = volume true log.retained ∧
        data.totalSellVolume = volume false log.retained) ↔
          ∀ k, volume true (log.ofIndex k) ≤ 0 → volume false (log.ofIndex k) ≤ 0 →
            volume true (log.ofIndex k) = 0 ∧ volume false (log.ofIndex k) = 0 := by
      rw [hbuy, hsell, h.sum_counted_iff true, h.sum_counted_iff false]
      simp only [imp_and, forall_and]
    rw [← hiff]
    constructor
    · rintro ⟨data', hdata', htotals⟩
      obtain rfl : data = data' := Option.some.inj (hdata.symm.trans hdata')
      exact htotals
    · exact fun htotals => ⟨data, hdata, htotals⟩

/-- **A bucket is found** exactly between the lowest and the highest one. -/
theorem getTradeVolumeAtPrice_iff (h : Refines stat log) {price : ℚ}
    (hprice : ∃ t ∈ log.recorded, t.price = price) :
    (∃ b, stat.getTradeVolumeAtPrice price = some b ∧ b.price = priceIndex price ∧
        b.totalBuyVolume = volume true (log.ofIndex (priceIndex price)) ∧
        b.totalSellVolume = volume false (log.ofIndex (priceIndex price))) ↔
      (∃ t ∈ log.recorded, t.index < priceIndex price) ∧
        ∃ t ∈ log.recorded, priceIndex price < t.index := by
  obtain ⟨t, ht, rfl⟩ := hprice
  have hindex : t.index ∈ log.indices := ⟨t, ht, rfl⟩
  have hbetween : ((∃ t' ∈ log.recorded, t'.index < t.index) ∧
      ∃ t' ∈ log.recorded, t.index < t'.index) ↔
        stat.minPriceIndex < t.index ∧ t.index < stat.maxPriceIndex := by
    rcases h.bounds with ⟨hnil, -⟩ | ⟨hleast, hgreatest⟩
    · rw [hnil] at ht
      cases ht
    · refine and_congr ⟨?_, fun hlt => ?_⟩ ⟨?_, fun hlt => ?_⟩
      · rintro ⟨t', ht', hlt⟩
        exact (hleast.2 ⟨t', ht', rfl⟩).trans_lt hlt
      · obtain ⟨t', ht', hmin⟩ := hleast.1
        exact ⟨t', ht', hmin.trans_lt hlt⟩
      · rintro ⟨t', ht', hlt⟩
        exact hlt.trans_le (hgreatest.2 ⟨t', ht', rfl⟩)
      · obtain ⟨t', ht', hmax⟩ := hgreatest.1
        exact ⟨t', ht', hlt.trans_eq hmax.symm⟩
  change _ ↔ (∃ t' ∈ log.recorded, t'.index < t.index) ∧ ∃ t' ∈ log.recorded, t.index < t'.index
  rw [hbetween, VolumeStat.getTradeVolumeAtPrice]
  change (∃ b, (if t.index ≤ _ ∨ t.index ≥ _ then none else stat.tradeVolumes[t.index]?) = some b ∧
    b.price = t.index ∧ _) ↔ _
  rw [getElem?_of_lt (h.index_lt _ hindex)]
  split
  · rename_i hout
    refine iff_of_false ?_ (by omega)
    rintro ⟨b, hb, -⟩
    cases hb
  · rename_i hin
    refine iff_of_true ⟨_, rfl, h.price_eq _ hindex, (h.counts _).buy_eq, (h.counts _).sell_eq⟩ ?_
    omega

end VolumeStat.Refines

/-! ## Every run -/

namespace VolumeRun

variable {s : VolumeRun} {c : VolumeCall}

/-- **The step lemma**: a call that meets its condition keeps the refinement. -/
theorem refines_step (h : s.stat.Refines s.log) (hlegal : s.Legal c) (hc : s.Condition c) :
    (s.step c).stat.Refines (s.step c).log := by
  cases c with
  | addTradeVolume t =>
    obtain ⟨stat', hadd, hrefines⟩ := h.addTradeVolume hlegal.2 hc
    rw [step, hadd]
    exact hrefines
  | removeOldVolumes now d =>
    obtain ⟨stat', hremove, hrefines⟩ := h.removeOld hc
    rw [step, hremove]
    exact hrefines
  | getData => exact h
  | getTradeVolumeAtPrice price => exact h

/-- **A call does what it shall do exactly under its condition.** -/
theorem meets_iff (h : s.stat.Refines s.log) (hlegal : s.Legal c) : s.Meets c ↔ s.Condition c := by
  cases c with
  | addTradeVolume t =>
    constructor
    · rintro ⟨stat', hadd⟩
      by_contra hlong
      rw [VolumeStat.addTradeVolume_error hlong h.length_le] at hadd
      cases hadd
    · intro hindex
      obtain ⟨stat', hadd, -⟩ := h.addTradeVolume hlegal.2 hindex
      exact ⟨stat', hadd⟩
  | removeOldVolumes now d => exact h.removeOldVolumes_iff now d
  | getData => exact h.getData_iff
  | getTradeVolumeAtPrice price =>
    exact forall_congr' fun hprice => h.getTradeVolumeAtPrice_iff hprice

/-- **Along every run, the statistics equal the retained trades exactly under the conditions.** -/
theorem along_meets_iff {calls : List VolumeCall} (hlegal : Run.Along step Legal start calls) :
    Run.Along step Meets start calls ↔ Run.Along step Condition start calls :=
  Run.along_iff_of_invariant (I := fun s : VolumeRun => s.stat.Refines s.log)
    (fun _ _ h hlegal hc => refines_step h hlegal hc) (fun _ _ h hlegal => meets_iff h hlegal)
    .construct hlegal

/-- Totals are exact where no price is below 1 and no quantity is negative. -/
theorem condition_getData {s : VolumeRun} (hprice : ∀ t ∈ s.log.recorded, 1 ≤ t.price)
    (hquantity : ∀ t ∈ s.log.retained, 0 ≤ t.quantity) : s.Condition .getData := by
  have hnonneg : ∀ isBuy k, 0 ≤ volume isBuy (s.log.ofIndex k) := fun isBuy k =>
    volume_nonneg (fun t ht => hquantity t (mem_bucket.mp ht).1) isBuy
  exact ⟨hprice, fun k hbuy hsell =>
    ⟨le_antisymm hbuy (hnonneg true k), le_antisymm hsell (hnonneg false k)⟩⟩

/-- A buy of one unit. -/
def buyAt (price : ℚ) (timestamp : UInt64) : VolumeCall :=
  .addTradeVolume ⟨price, 1, true, timestamp⟩

/-- Three trades, of which the first expires. -/
def threeTrades : List VolumeCall :=
  [buyAt 5 1, buyAt 7 1000, buyAt 6 1000, .getTradeVolumeAtPrice 6, .removeOldVolumes 1000 0,
    .getData]

/-- The bucket between two others is found, and the totals are those of the trades that are left. -/
theorem threeTrades_meets : Run.Along step Meets start threeTrades := by
  refine (along_meets_iff ?_).mpr ?_
  · refine ⟨⟨by norm_num, ?_⟩, ⟨by norm_num, ?_⟩, ⟨by norm_num, ?_⟩, trivial, trivial, trivial,
      trivial⟩
    · decide +kernel
    · decide +kernel
    · decide +kernel
  · refine ⟨?_, ?_, ?_, fun _ => ?_, fun k t ht => ?_, condition_getData ?_ ?_, trivial⟩
    · show priceIndex 5 < maxBuckets
      decide +kernel
    · show priceIndex 7 < maxBuckets
      decide +kernel
    · show priceIndex 6 < maxBuckets
      decide +kernel
    · decide +kernel
    · have hkept : ∀ t ∈ (Run.exec step start (threeTrades.take 4)).log.retained,
          ¬ t.Expired 1000 0 → 1000 - t.timestamp ≤ 0 * 1000000000 := by decide +kernel
      obtain ⟨hmem, hfresh⟩ := List.mem_filter.mp (List.mem_of_mem_head? ht)
      exact hkept t (mem_bucket.mp hmem).1 (of_decide_eq_true hfresh)
    · decide +kernel
    · decide +kernel

/-- **Three runs that go wrong**: a trade below 1, a trade ahead of the local clock, and a single
bucket. -/
theorem boundaryRuns_not_meet :
    (Run.Along step Legal start [buyAt (1 / 2) 1, .getData] ∧
        ¬ Run.Along step Meets start [buyAt (1 / 2) 1, .getData]) ∧
      (Run.Along step Legal start [buyAt 5 1001, .removeOldVolumes 1000 900] ∧
        ¬ Run.Along step Meets start [buyAt 5 1001, .removeOldVolumes 1000 900]) ∧
      (Run.Along step Legal start [buyAt 5 1, .getTradeVolumeAtPrice 5] ∧
        ¬ Run.Along step Meets start [buyAt 5 1, .getTradeVolumeAtPrice 5]) := by
  refine ⟨⟨?_, ?_⟩, ⟨?_, ?_⟩, ⟨?_, ?_⟩⟩
  · exact ⟨⟨by norm_num, fun t ht => absurd ht List.not_mem_nil⟩, trivial, trivial⟩
  · rintro ⟨-, ⟨data, hdata, -⟩, -⟩
    have hnone : ((start.step (buyAt (1 / 2) 1)).stat.getData 0).isNone = true := by decide +kernel
    rw [hdata] at hnone
    cases hnone
  · exact ⟨⟨by norm_num, fun t ht => absurd ht List.not_mem_nil⟩, trivial, trivial⟩
  · rintro ⟨-, ⟨stat, hremove, hexact⟩, -⟩
    have hpopped : ((start.step (buyAt 5 1001)).stat.removeOldVolumes 1000 900).map
        (fun stat => (stat.bucketAt 5).trades) = some [] := by decide +kernel
    have hkept : ((start.step (buyAt 5 1001)).stat.bucketAt 5).trades.filter
        (fun t => ¬ t.Expired 1000 900) ≠ [] := by decide +kernel
    rw [hremove] at hpopped
    exact hkept ((hexact 5).symm.trans (Option.some.inj hpopped))
  · exact ⟨⟨by norm_num, fun t ht => absurd ht List.not_mem_nil⟩, trivial, trivial⟩
  · rintro ⟨-, hmeets, -⟩
    obtain ⟨b, hb, -⟩ := hmeets ⟨_, List.mem_singleton_self _, rfl⟩
    have hnone : ((start.step (buyAt 5 1)).stat.getTradeVolumeAtPrice 5).isNone = true := by
      decide +kernel
    rw [hb] at hnone
    cases hnone

end VolumeRun

end TradingEngine
