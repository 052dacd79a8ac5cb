import Mathlib.Data.List.Induction
import Mathlib.Data.Nat.Cast.Order.Field
import Mathlib.Data.Rat.Floor
import TradingEngine.Machinery.Histogram

/-!
# Metric/LatencyStats — the latency histogram

Delays are counted in 496 buckets: one for each number below 16, then eight for each range between
two powers of two.  `percentile` takes a snapshot of the counts, adds them up from the front and
answers with the upper bound of the first bucket at which the sum reaches the target.

The bit arithmetic of the two bucket functions is `Histogram.index 3` and `Histogram.upper 3`
(`bucketIndex_eq`, `bucketUpperBoundNs_eq`).  `percentile_eq` ties the cumulative counts to the
order statistics of what was recorded.
-/

namespace TradingEngine

/-- `LatencyStats`, called from one thread. -/
structure LatencyStats where
  buckets : Vector (BitVec 64) 496 := Vector.replicate 496 0
  count : BitVec 64 := 0
  totalDelayNs : BitVec 64 := 0
  maxDelayNs : BitVec 64 := 0

namespace LatencyStats

def subBucketBits : ℕ := 3
def subBucketCount : ℕ := 1 <<< subBucketBits
def firstLogBucket : ℕ := subBucketCount
def logRangeCount : ℕ := 64 - subBucketBits
def bucketCount : ℕ := firstLogBucket + logRangeCount * subBucketCount

/-- `bucket_index`; an `int` is an integer. -/
def bucketIndex (ns : BitVec 64) : ℤ :=
  if ns < BitVec.ofNat 64 firstLogBucket then ns.toNat
  else
    -- `ns ≥ 8`: the shift is not negative
    let exponent : ℤ := 63 - ns.clz.toNat
    let shift := exponent - subBucketBits
    let subBucket := (ns >>> shift.toNat &&& BitVec.ofNat 64 (subBucketCount - 1)).toNat
    firstLogBucket + (exponent - subBucketBits) * subBucketCount + subBucket

def bucketUpperBoundNs (idx : ℤ) : BitVec 64 :=
  if idx ≤ 0 then 0
  else if idx < firstLogBucket then BitVec.ofInt 64 idx
  else
    let offset := idx - firstLogBucket
    let exponent := subBucketBits + offset / subBucketCount
    let subBucket := offset % subBucketCount
    let shift := exponent - subBucketBits
    let step := 1#64 <<< shift.toNat
    let lower := (1#64 <<< exponent.toNat) + (BitVec.ofInt 64 subBucket <<< shift.toNat)
    lower ||| (step - 1)

/-- `buckets[i]`. -/
def bucket (s : LatencyStats) (i : ℕ) : BitVec 64 := s.buckets[i]?.getD 0

def record (s : LatencyStats) (delayNs : BitVec 64) : LatencyStats where
  buckets :=
    let i := (bucketIndex delayNs).toNat
    s.buckets.setIfInBounds i (s.bucket i + 1)
  totalDelayNs := s.totalDelayNs + delayNs
  maxDelayNs := if s.maxDelayNs < delayNs then delayNs else s.maxDelayNs
  count := s.count + 1

/-- The first loop of `percentile`: the sum of the buckets below `n`. -/
def total (s : LatencyStats) (n : ℕ) : BitVec 64 :=
  (List.range n).foldl (fun sum i => sum + s.bucket i) 0

/-- The second loop of `percentile`, with `n` buckets left. -/
def scan (s : LatencyStats) (target : BitVec 64) : ℕ → BitVec 64 → BitVec 64
  | 0, _ => bucketUpperBoundNs (bucketCount - 1)
  | n + 1, cumulative =>
    let i := bucketCount - (n + 1)
    let cumulative := cumulative + s.bucket i
    if target ≤ cumulative then bucketUpperBoundNs i else scan s target n cumulative

def percentile (s : LatencyStats) (p : ℚ) : BitVec 64 :=
  if ¬ (0 < p ∧ p ≤ 1) then 0
  else if s.total bucketCount = 0 then 0
  else s.scan (BitVec.ofNat 64 ⌈((s.total bucketCount).toNat : ℚ) * p⌉₊) bucketCount 0

/-- `percentile` reads the buckets and nothing else. -/
theorem percentile_congr {s t : LatencyStats} (h : s.buckets = t.buckets) (p : ℚ) :
    s.percentile p = t.percentile p := by
  have hbucket : ∀ i, s.bucket i = t.bucket i := fun i => by rw [bucket, bucket, h]
  have htotal : s.total bucketCount = t.total bucketCount := by simp only [total, hbucket]
  have hscan : ∀ target n sum, s.scan target n sum = t.scan target n sum := by
    intro target n sum
    induction n generalizing sum with
    | zero => rfl
    | succ n ih => simp only [scan, hbucket, ih]
  simp only [percentile, htotal, hscan]

/-! ## The bit arithmetic -/

/-- **The leading zeros, the shift and the mask give the log-linear bucket.** -/
theorem bucketIndex_eq (ns : BitVec 64) : bucketIndex ns = Histogram.index 3 ns.toNat := by
  rw [bucketIndex]
  by_cases hns : ns.toNat < 2 ^ 3
  · rw [if_pos (BitVec.lt_def.mpr hns), Histogram.index, if_pos hns]
  have hne : ns ≠ 0#64 := by
    rintro rfl
    exact hns (by decide)
  have hlog : 64 - ns.clz.toNat = ns.toNat.log2 + 1 := by
    have hpos : ns.toNat ≠ 0 := by omega
    have hlow := (Nat.le_log2 hpos).mpr (BitVec.two_pow_sub_clz_le_toNat_of_ne_zero (by decide) hne)
    have hhigh := (Nat.log2_lt hpos).mpr (BitVec.toNat_lt_two_pow_sub_clz (x := ns))
    omega
  obtain ⟨s, a, ha, ha', hlow, hhigh, hs, hdiv⟩ :=
    Histogram.exists_mantissa (Nat.le_of_not_lt hns)
  have hlog3 : 3 ≤ ns.toNat.log2 := (Nat.le_log2 (by omega)).mpr (Nat.le_of_not_lt hns)
  have hexponent : (63 : ℤ) - ns.clz.toNat = s + 3 := by omega
  have hsub : (ns >>> s &&& BitVec.ofNat 64 (subBucketCount - 1)).toNat = a % 2 ^ 3 := by
    rw [BitVec.toNat_and, BitVec.toNat_ushiftRight, Nat.shiftRight_eq_div_pow, ← hdiv]
    exact Nat.and_two_pow_sub_one_eq_mod a 3
  rw [if_neg (mt BitVec.lt_def.mp hns), Histogram.index_eq ha ha' hlow hhigh]
  simp only [hexponent, subBucketBits, Nat.cast_ofNat, add_sub_cancel_right, Int.toNat_natCast,
    hsub]
  rw [firstLogBucket, show subBucketCount = 2 ^ 3 from rfl]
  push_cast
  omega

/-- **Or-ing with the step gives the greatest number of the bucket.** -/
theorem bucketUpperBoundNs_eq {i : ℕ} (hi : i < bucketCount) :
    (bucketUpperBoundNs i).toNat = Histogram.upper 3 i := by
  replace hi : i < 496 := hi
  rw [bucketUpperBoundNs]
  by_cases h0 : (i : ℤ) ≤ 0
  · obtain rfl : i = 0 := by omega
    rfl
  rw [if_neg h0]
  by_cases hsmall : i < 2 ^ 3
  · have hsmall' : (i : ℤ) < firstLogBucket := by exact_mod_cast hsmall
    rw [if_pos hsmall', Histogram.upper, if_pos hsmall, BitVec.ofInt_natCast, BitVec.toNat_ofNat,
      Nat.mod_eq_of_lt (by omega)]
  have hsmall' : ¬ (i : ℤ) < firstLogBucket := by exact_mod_cast hsmall
  rw [if_neg hsmall']
  obtain ⟨s, a, ha, ha', hsplit, hupper⟩ := Histogram.exists_bucket (Nat.le_of_not_lt hsmall)
  have hs : s ≤ 60 := by omega
  have hdiv : ((i : ℤ) - firstLogBucket) / subBucketCount = s := by
    rw [firstLogBucket, show subBucketCount = 8 from rfl]
    omega
  have hmod : ((i : ℤ) - firstLogBucket) % subBucketCount = (a - 8 : ℕ) := by
    rw [firstLogBucket, show subBucketCount = 8 from rfl]
    omega
  have hexponent : ((3 : ℕ) + (s : ℤ)).toNat = s + 3 := by omega
  have hshift : ((3 : ℕ) + (s : ℤ) - (3 : ℕ)).toNat = s := by omega
  simp only [hdiv, hmod, subBucketBits, hexponent, hshift, BitVec.ofInt_natCast]
  -- nothing overflows: the mantissa has four bits, the shift is 60 at most
  have hpow : 2 ^ s ≤ 2 ^ 60 := Nat.pow_le_pow_right Nat.two_pos hs
  have hpos : 0 < 2 ^ s := Nat.two_pow_pos s
  have hone : (1#64 <<< (s + 3)).toNat = 2 ^ s * 8 := by
    rw [BitVec.toNat_shiftLeft, Nat.shiftLeft_eq, BitVec.toNat_ofNat, Nat.one_mod, Nat.one_mul,
      Nat.pow_add]
    exact Nat.mod_eq_of_lt (by omega)
  have hsub : (BitVec.ofNat 64 (a - 8) <<< s).toNat = 2 ^ s * (a - 8) := by
    have hlt : 2 ^ s * (a - 8) < 2 ^ 64 := by
      have := Nat.mul_le_mul hpow (show a - 8 ≤ 7 by omega)
      omega
    rw [BitVec.toNat_shiftLeft, Nat.shiftLeft_eq, BitVec.toNat_ofNat,
      Nat.mod_eq_of_lt (show a - 8 < 2 ^ 64 by omega), Nat.mul_comm, Nat.mod_eq_of_lt hlt]
  have hstep : (1#64 <<< s - 1).toNat = 2 ^ s - 1 := by
    have hshifted : (1#64 <<< s).toNat = 2 ^ s := by
      rw [BitVec.toNat_shiftLeft, Nat.shiftLeft_eq, BitVec.toNat_ofNat, Nat.one_mod, Nat.one_mul]
      exact Nat.mod_eq_of_lt (by omega)
    rw [BitVec.toNat_sub_of_le, hshifted]
    · rfl
    · rw [BitVec.le_def, hshifted]
      exact hpos
  have hlower : 2 ^ s * 8 + 2 ^ s * (a - 8) = 2 ^ s * a := by
    rw [← Nat.mul_add, Nat.add_sub_cancel' (show 8 ≤ a from ha)]
  have hlt : 2 ^ s * a < 2 ^ 64 := by
    have := Nat.mul_le_mul hpow (show a ≤ 15 by omega)
    omega
  rw [BitVec.toNat_or, BitVec.toNat_add, hone, hsub, hstep, hlower, Nat.mod_eq_of_lt hlt,
    ← Nat.two_pow_add_eq_or_of_lt (by omega), hupper, Nat.add_mul, Nat.one_mul, Nat.mul_comm]
  omega

theorem bucketIndex_lt (ns : BitVec 64) : Histogram.index 3 ns.toNat < bucketCount :=
  Histogram.index_lt (by decide) ns.isLt

/-- The upper bound of the bucket of a delay, as a number. -/
theorem upperBound_bucketIndex (ns : BitVec 64) :
    (bucketUpperBoundNs (bucketIndex ns)).toNat =
      Histogram.upper 3 (Histogram.index 3 ns.toNat) := by
  rw [bucketIndex_eq, bucketUpperBoundNs_eq (bucketIndex_lt ns)]

/-- **The upper bound is the delay or at most an eighth above it.** -/
theorem upperBound_accuracy (ns : BitVec 64) :
    (ns.toNat : ℚ) ≤ (bucketUpperBoundNs (bucketIndex ns)).toNat ∧
      ((bucketUpperBoundNs (bucketIndex ns)).toNat : ℚ) ≤ ns.toNat + ns.toNat / 8 := by
  rw [upperBound_bucketIndex]
  refine ⟨Nat.cast_le.mpr ((Histogram.gc 3).le_u_l ns.toNat), ?_⟩
  have hupper : ((Histogram.upper 3 (Histogram.index 3 ns.toNat) : ℕ) : ℚ) ≤
      (ns.toNat + ns.toNat / 2 ^ 3 : ℕ) := Nat.cast_le.mpr (Histogram.upper_index_le 3 ns.toNat)
  have hdiv : ((ns.toNat / 2 ^ 3 : ℕ) : ℚ) ≤ (ns.toNat : ℚ) / 8 := by
    exact_mod_cast Nat.cast_div_le (α := ℚ) (m := ns.toNat) (n := 2 ^ 3)
  push_cast at hupper
  linarith

/-! ## What the buckets hold -/

/-- The delays counted below a bucket. -/
def below (ds : List (BitVec 64)) (k : ℕ) : ℕ := ds.countP fun d => Histogram.index 3 d.toNat < k

@[simp] theorem below_zero (ds : List (BitVec 64)) : below ds 0 = 0 := by
  simp [below]

theorem below_succ (ds : List (BitVec 64)) (k : ℕ) :
    below ds (k + 1) = below ds k + ds.countP fun d => Histogram.index 3 d.toNat = k := by
  induction ds with
  | nil => rfl
  | cons d ds ih =>
    simp only [below, List.countP_cons, decide_eq_true_eq] at ih ⊢
    rw [ih]
    split_ifs <;> omega

theorem below_bucketCount (ds : List (BitVec 64)) : below ds bucketCount = ds.length :=
  List.countP_eq_length.mpr fun d _ => decide_eq_true (bucketIndex_lt d)

theorem below_le (ds : List (BitVec 64)) (k : ℕ) : below ds k ≤ ds.length := List.countP_le_length

/-- The histogram counts each delay in its bucket. -/
def Counts (s : LatencyStats) (ds : List (BitVec 64)) : Prop :=
  ∀ k < bucketCount, (s.bucket k).toNat = ds.countP fun d => Histogram.index 3 d.toNat = k

theorem bucket_record (s : LatencyStats) (d : BitVec 64) {k : ℕ} (hk : k < bucketCount) :
    (s.record d).bucket k =
      if Histogram.index 3 d.toNat = k then s.bucket k + 1 else s.bucket k := by
  have hsize : k < 496 := hk
  simp only [record, bucketIndex_eq, Int.toNat_natCast, bucket]
  rw [Vector.getElem?_setIfInBounds]
  by_cases h : Histogram.index 3 d.toNat = k
  · rw [if_pos h, if_pos h, if_pos (h ▸ hsize)]
    rw [h]
    rfl
  · rw [if_neg h, if_neg h]

theorem counts_record {s : LatencyStats} {ds : List (BitVec 64)} (h : s.Counts ds)
    (hlen : ds.length + 1 < 2 ^ 64) (d : BitVec 64) : (s.record d).Counts (ds ++ [d]) := by
  intro k hk
  rw [bucket_record s d hk, List.countP_append, List.countP_singleton, ← h k hk]
  by_cases hd : Histogram.index 3 d.toNat = k
  · have hle : (s.bucket k).toNat ≤ ds.length := by
      rw [h k hk]
      exact List.countP_le_length
    rw [if_pos hd, if_pos (decide_eq_true hd), BitVec.toNat_add]
    exact Nat.mod_eq_of_lt (Nat.lt_of_le_of_lt (Nat.succ_le_succ hle) hlen)
  · rw [if_neg hd, if_neg (by simpa using hd), Nat.add_zero]

/-- A sequence of `record` calls on new statistics. -/
def recordAll (ds : List (BitVec 64)) : LatencyStats := ds.foldl record {}

theorem counts_recordAll {ds : List (BitVec 64)} (hlen : ds.length < 2 ^ 64) :
    (recordAll ds).Counts ds := by
  induction ds using List.reverseRecOn with
  | nil =>
    intro k hk
    have hsize : k < 496 := hk
    simp [recordAll, bucket, hsize]
  | append_singleton ds d ih =>
    rw [List.length_append, List.length_singleton] at hlen
    rw [recordAll, List.foldl_append]
    exact counts_record (ih (by omega)) hlen d

/-! ## The two loops of `percentile` -/

variable {s : LatencyStats} {ds : List (BitVec 64)}

theorem toNat_add_bucket (h : s.Counts ds) (hlen : ds.length < 2 ^ 64) {sum : BitVec 64} {k : ℕ}
    (hk : k < bucketCount) (hsum : sum.toNat = below ds k) :
    (sum + s.bucket k).toNat = below ds (k + 1) := by
  have hle := below_le ds (k + 1)
  rw [BitVec.toNat_add, hsum, h k hk, ← below_succ, Nat.mod_eq_of_lt (by omega)]

theorem toNat_total (h : s.Counts ds) (hlen : ds.length < 2 ^ 64) {n : ℕ} (hn : n ≤ bucketCount) :
    (s.total n).toNat = below ds n := by
  induction n with
  | zero => exact (below_zero ds).symm
  | succ n ih =>
    have hfold : s.total (n + 1) = s.total n + s.bucket n := by
      rw [total, List.range_succ, List.foldl_append]
      rfl
    rw [hfold, toNat_add_bucket h hlen hn (ih (Nat.le_of_succ_le hn))]

/-- **The scan stops at the first bucket at which the cumulative count reaches the target.** -/
theorem scan_eq (h : s.Counts ds) (hlen : ds.length < 2 ^ 64) {target : BitVec 64} {k : ℕ}
    (hk : k < bucketCount) (hbefore : below ds k < target.toNat)
    (hreached : target.toNat ≤ below ds (k + 1)) {n : ℕ} {cumulative : BitVec 64}
    (hn : bucketCount - n ≤ k) (hn' : n ≤ bucketCount)
    (hsum : cumulative.toNat = below ds (bucketCount - n)) :
    s.scan target n cumulative = bucketUpperBoundNs k := by
  induction n generalizing cumulative with
  | zero => exact absurd hn (Nat.not_le.mpr hk)
  | succ n ih =>
    have hnext := toNat_add_bucket h hlen (by omega) hsum
    rw [show bucketCount - (n + 1) + 1 = bucketCount - n by omega] at hnext
    rw [scan]
    by_cases hat : bucketCount - (n + 1) = k
    · rw [← hat, show bucketCount - (n + 1) + 1 = bucketCount - n by omega] at hreached
      rw [if_pos (BitVec.le_def.mpr (hnext ▸ hreached)), hat]
    · have hmono : below ds (bucketCount - n) ≤ below ds k := by
        refine List.countP_mono_left fun d _ hd => ?_
        rw [decide_eq_true_iff] at hd ⊢
        omega
      rw [if_neg fun hle => absurd (BitVec.le_def.mp hle) (by omega)]
      exact ih (by omega) (Nat.le_of_succ_le hn') hnext

/-! ## Percentiles -/

/-- The `⌈n * p⌉`-th smallest delay. -/
def quantile (ds : List (BitVec 64)) (p : ℚ) : BitVec 64 :=
  ds.mergeSort[⌈(ds.length : ℚ) * p⌉₊ - 1]?.getD 0

theorem rank_pos {p : ℚ} (hne : ds ≠ []) (h0 : 0 < p) : 0 < ⌈(ds.length : ℚ) * p⌉₊ := by
  have hlen : (0 : ℚ) < ds.length := Nat.cast_pos.mpr (List.length_pos_of_ne_nil hne)
  exact Nat.ceil_pos.mpr (mul_pos hlen h0)

theorem rank_le {p : ℚ} (h1 : p ≤ 1) : ⌈(ds.length : ℚ) * p⌉₊ ≤ ds.length :=
  Nat.ceil_le.mpr (mul_le_of_le_one_right (Nat.cast_nonneg _) h1)

theorem pairwise_sorted (ds : List (BitVec 64)) : ds.mergeSort.Pairwise fun x y =>
    Histogram.index 3 x.toNat ≤ Histogram.index 3 y.toNat := by
  have hsorted : ds.mergeSort.Pairwise fun a b => decide (a ≤ b) = true :=
    List.pairwise_mergeSort
      (fun a b c hab hbc => by
        rw [decide_eq_true_iff] at hab hbc ⊢
        exact BitVec.le_trans hab hbc)
      (fun a b => by
        rw [Bool.or_eq_true, decide_eq_true_iff, decide_eq_true_iff]
        exact BitVec.le_total a b) ds
  refine hsorted.imp fun hab => (Histogram.gc 3).monotone_l ?_
  exact BitVec.le_def.mp (of_decide_eq_true hab)

/-- **The first bucket that reaches the rank is the bucket of the order statistic.** -/
theorem le_below_iff {p : ℚ} (hne : ds ≠ []) (h0 : 0 < p) (h1 : p ≤ 1) (k : ℕ) :
    ⌈(ds.length : ℚ) * p⌉₊ ≤ below ds (k + 1) ↔ Histogram.index 3 (quantile ds p).toNat ≤ k := by
  have hpos := rank_pos hne h0
  have hle : ⌈(ds.length : ℚ) * p⌉₊ ≤ ds.length := rank_le h1
  have hplace : ⌈(ds.length : ℚ) * p⌉₊ - 1 < ds.mergeSort.length := by
    rw [List.length_mergeSort]
    omega
  have hbelow : below ds (k + 1) =
      ds.mergeSort.countP fun d => Histogram.index 3 d.toNat ≤ k := by
    rw [(List.mergeSort_perm ds _).countP_eq]
    exact List.countP_congr fun d _ => by simp only [decide_eq_true_iff, Nat.lt_succ_iff]
  rw [hbelow, Histogram.le_countP_iff (pairwise_sorted ds) hpos hplace, quantile,
    List.getElem?_eq_getElem hplace]
  rfl

/-- **`percentile` answers with the upper bound of the bucket of the order statistic.** -/
theorem percentile_eq {p : ℚ} (hne : ds ≠ []) (hlen : ds.length < 2 ^ 64) (h0 : 0 < p)
    (h1 : p ≤ 1) :
    (recordAll ds).percentile p = bucketUpperBoundNs (bucketIndex (quantile ds p)) := by
  have hcounts := counts_recordAll hlen
  have htotal : ((recordAll ds).total bucketCount).toNat = ds.length := by
    rw [toNat_total hcounts hlen le_rfl, below_bucketCount]
  have hnonempty : (recordAll ds).total bucketCount ≠ 0 := by
    intro hzero
    rw [hzero] at htotal
    exact hne (List.length_eq_zero_iff.mp htotal.symm)
  have hrank : (BitVec.ofNat 64 ⌈(ds.length : ℚ) * p⌉₊).toNat = ⌈(ds.length : ℚ) * p⌉₊ := by
    rw [BitVec.toNat_ofNat]
    exact Nat.mod_eq_of_lt ((rank_le h1).trans_lt hlen)
  rw [percentile, if_neg (not_not.mpr ⟨h0, h1⟩), if_neg hnonempty, htotal, bucketIndex_eq]
  refine scan_eq hcounts hlen (bucketIndex_lt _) ?_ ?_ (by omega) le_rfl ?_
  · rw [hrank]
    rcases hk : Histogram.index 3 (quantile ds p).toNat with _ | k
    · rw [below_zero]
      exact rank_pos hne h0
    · refine Nat.lt_of_not_le fun hle => ?_
      have := (le_below_iff hne h0 h1 k).mp hle
      omega
  · rw [hrank]
    exact (le_below_iff hne h0 h1 _).mpr le_rfl
  · rw [Nat.sub_self]
    exact (below_zero ds).symm

theorem percentile_mono {p p' : ℚ} (hne : ds ≠ []) (hlen : ds.length < 2 ^ 64) (h0 : 0 < p)
    (hle : p ≤ p') (h1 : p' ≤ 1) :
    (recordAll ds).percentile p ≤ (recordAll ds).percentile p' := by
  rw [percentile_eq hne hlen h0 (hle.trans h1), percentile_eq hne hlen (h0.trans_le hle) h1,
    BitVec.le_def, upperBound_bucketIndex, upperBound_bucketIndex]
  refine (Histogram.gc 3).monotone_u ?_
  refine (le_below_iff hne h0 (hle.trans h1) _).mp ?_
  refine le_trans ?_ ((le_below_iff hne (h0.trans_le hle) h1 _).mpr le_rfl)
  exact Nat.ceil_mono (mul_le_mul_of_nonneg_left hle (Nat.cast_nonneg _))

/-- **The histogram is accurate.**  The buckets cover all delays in order, each up to its upper
bound, which exceeds the delay by an eighth at most; and a percentile of recorded delays is the
upper bound of the bucket of the order statistic. -/
theorem accurate :
    (∀ ns, 0 ≤ bucketIndex ns ∧ bucketIndex ns < 496) ∧
    (∀ ns ns', ns ≤ ns' → bucketIndex ns ≤ bucketIndex ns') ∧
    (∀ ns, ns ≤ bucketUpperBoundNs (bucketIndex ns) ∧
      ((bucketUpperBoundNs (bucketIndex ns)).toNat : ℚ) ≤ ns.toNat + ns.toNat / 8) ∧
    (∀ i : ℤ, 0 ≤ i → i < 496 → bucketIndex (bucketUpperBoundNs i) = i) ∧
    ∀ ds : List (BitVec 64), ds ≠ [] → ds.length < 2 ^ 53 →
      (∀ p : ℚ, 0 < p → p ≤ 1 →
        (∃ q, ds.mergeSort[⌈(ds.length : ℚ) * p⌉₊ - 1]? = some q ∧
          (recordAll ds).percentile p = bucketUpperBoundNs (bucketIndex q) ∧
          q ≤ (recordAll ds).percentile p ∧
          (((recordAll ds).percentile p).toNat : ℚ) ≤ q.toNat + q.toNat / 8)) ∧
      ∀ p p' : ℚ, 0 < p → p ≤ p' → p' ≤ 1 →
        (recordAll ds).percentile p ≤ (recordAll ds).percentile p' := by
  refine ⟨fun ns => ?_, fun ns ns' hle => ?_, fun ns => ?_, fun i h0 h1 => ?_,
    fun ds hne hlen => ⟨fun p h0 h1 => ?_, fun p p' h0 hle h1 => ?_⟩⟩
  · rw [bucketIndex_eq]
    exact ⟨Int.natCast_nonneg _, Int.ofNat_lt.mpr (bucketIndex_lt ns)⟩
  · rw [bucketIndex_eq, bucketIndex_eq]
    exact Int.ofNat_le.mpr ((Histogram.gc 3).monotone_l (BitVec.le_def.mp hle))
  · exact ⟨BitVec.le_def.mpr (Nat.cast_le.mp (upperBound_accuracy ns).1),
      (upperBound_accuracy ns).2⟩
  · obtain ⟨k, rfl⟩ := Int.eq_ofNat_of_zero_le h0
    have hk : k < bucketCount := Int.ofNat_lt.mp h1
    rw [bucketIndex_eq, bucketUpperBoundNs_eq hk, Histogram.index_upper]
  · have hplace : ⌈(ds.length : ℚ) * p⌉₊ - 1 < ds.mergeSort.length := by
      rw [List.length_mergeSort]
      have := rank_pos hne h0
      have : ⌈(ds.length : ℚ) * p⌉₊ ≤ ds.length := rank_le h1
      omega
    have hpercentile := percentile_eq hne (hlen.trans (by decide)) h0 h1
    rw [quantile, List.getElem?_eq_getElem hplace, Option.getD_some] at hpercentile
    have haccuracy := upperBound_accuracy ds.mergeSort[⌈(ds.length : ℚ) * p⌉₊ - 1]
    rw [← hpercentile] at haccuracy
    exact ⟨_, List.getElem?_eq_getElem hplace, hpercentile,
      BitVec.le_def.mpr (Nat.cast_le.mp haccuracy.1), haccuracy.2⟩
  · exact percentile_mono hne (hlen.trans (by decide)) h0 hle h1

example : bucketUpperBoundNs (bucketIndex 100) = 103 := by decide

end LatencyStats

end TradingEngine
