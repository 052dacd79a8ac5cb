import Mathlib.Data.List.Nodup
import Mathlib.Data.Nat.Log
import Mathlib.Order.GaloisConnection.Defs
import Mathlib.Tactic.Ring
import Mathlib.Tactic.Linarith

/-!
# Machinery/Histogram — log-linear buckets, and order statistics from cumulative counts

Below `2 ^ b` every number has a bucket of its own; from there on each range between two powers of
two is cut into `2 ^ b` buckets of one width.  `index` is the bucket of a number and `upper` the
greatest number of a bucket.  The two are adjoint (`gc`), which is all that is needed of the order
of the buckets; `upper_index_le` is the accuracy.

The second part is about any histogram: in a sorted list, a test that holds of a front part holds of
the `t`-th element exactly if it holds of more than `t` (`getElem_iff_lt_countP`).  The buckets of a
monotone key are such tests, so the first bucket at which the cumulative count reaches a target is
the one of the order statistic (`le_countP_iff`).
-/

namespace Histogram

/-! ## Log-linear buckets -/

section LogBuckets

variable {b n i s a : ℕ}

/-- The bucket of a number. -/
def index (b n : ℕ) : ℕ :=
  if n < 2 ^ b then n else (n.log2 - b) * 2 ^ b + n / 2 ^ (n.log2 - b)

/-- The greatest number of a bucket. -/
def upper (b i : ℕ) : ℕ :=
  if i < 2 ^ b then i else (i % 2 ^ b + 2 ^ b + 1) * 2 ^ (i / 2 ^ b - 1) - 1

/-- A large number is a mantissa of `b + 1` bits, an exponent and a rest. -/
theorem exists_mantissa (h : 2 ^ b ≤ n) : ∃ s a, 2 ^ b ≤ a ∧ a < 2 ^ b * 2 ∧ a * 2 ^ s ≤ n ∧
    n < (a + 1) * 2 ^ s ∧ s = n.log2 - b ∧ a = n / 2 ^ s := by
  have hne : n ≠ 0 := fun h0 => absurd (Nat.two_pow_pos b) (by omega)
  obtain ⟨hlow, hhigh⟩ := (Nat.log2_eq_iff hne).mp rfl
  have hb : b ≤ n.log2 := (Nat.le_log2 hne).mpr h
  have hpow : 2 ^ n.log2 = 2 ^ b * 2 ^ (n.log2 - b) := by
    rw [← Nat.pow_add, Nat.add_sub_cancel' hb]
  have hpos : 0 < 2 ^ (n.log2 - b) := Nat.two_pow_pos _
  refine ⟨n.log2 - b, n / 2 ^ (n.log2 - b), ?_, ?_, Nat.div_mul_le_self _ _, ?_, rfl, rfl⟩
  · rw [Nat.le_div_iff_mul_le hpos, ← hpow]
    exact hlow
  · rw [Nat.div_lt_iff_lt_mul hpos, Nat.mul_right_comm, ← hpow, ← Nat.pow_succ]
    exact hhigh
  · exact Nat.lt_mul_of_div_lt (Nat.lt_succ_self _) hpos

/-- …and the mantissa and the exponent make its bucket. -/
theorem index_eq (ha : 2 ^ b ≤ a) (ha' : a < 2 ^ b * 2) (hlow : a * 2 ^ s ≤ n)
    (hhigh : n < (a + 1) * 2 ^ s) : index b n = s * 2 ^ b + a := by
  have hpos : 0 < 2 ^ s := Nat.two_pow_pos s
  have hn : 2 ^ b ≤ n := ha.trans ((Nat.le_mul_of_pos_right a hpos).trans hlow)
  have hne : n ≠ 0 := fun h0 => absurd (Nat.two_pow_pos b) (by omega)
  have hlog : n.log2 = b + s := by
    refine (Nat.log2_eq_iff hne).mpr ⟨?_, ?_⟩
    · rw [Nat.pow_add]
      exact (Nat.mul_le_mul_right _ ha).trans hlow
    · calc n < (a + 1) * 2 ^ s := hhigh
        _ ≤ 2 ^ b * 2 * 2 ^ s := Nat.mul_le_mul_right _ ha'
        _ = 2 ^ (b + s + 1) := by ring
  have hdiv : n / 2 ^ s = a := by
    rw [Nat.div_eq_iff hpos]
    rw [Nat.add_mul, Nat.one_mul] at hhigh
    omega
  rw [index, if_neg (Nat.not_lt.mpr hn), hlog, Nat.add_sub_cancel_left, hdiv]

/-- A bucket past the exact ones is a mantissa and an exponent. -/
theorem exists_bucket (h : 2 ^ b ≤ i) : ∃ s a, 2 ^ b ≤ a ∧ a < 2 ^ b * 2 ∧ i = s * 2 ^ b + a ∧
    upper b i = (a + 1) * 2 ^ s - 1 := by
  have hpos : 0 < 2 ^ b := Nat.two_pow_pos b
  have hdiv : 1 ≤ i / 2 ^ b := (Nat.one_le_div_iff hpos).mpr h
  refine ⟨i / 2 ^ b - 1, i % 2 ^ b + 2 ^ b, Nat.le_add_left _ _, ?_, ?_, ?_⟩
  · have := Nat.mod_lt i hpos
    omega
  · have hmod := Nat.div_add_mod' i (2 ^ b)
    have hstep : (i / 2 ^ b - 1) * 2 ^ b + 2 ^ b = i / 2 ^ b * 2 ^ b := by
      rw [← Nat.succ_mul, Nat.succ_eq_add_one, Nat.sub_add_cancel hdiv]
    omega
  · rw [upper, if_neg (Nat.not_lt.mpr h)]

/-- **A number is in a bucket or below exactly if it does not pass the bucket's upper bound.** -/
theorem gc (b : ℕ) : GaloisConnection (index b) (upper b) := by
  intro n i
  by_cases hn : n < 2 ^ b
  · rw [index, if_pos hn]
    by_cases hi : i < 2 ^ b
    · rw [upper, if_pos hi]
    · obtain ⟨t, c, hc, -, -, hupper⟩ := exists_bucket (Nat.le_of_not_lt hi)
      have hle : c + 1 ≤ (c + 1) * 2 ^ t := Nat.le_mul_of_pos_right _ (Nat.two_pow_pos t)
      rw [hupper]
      omega
  · obtain ⟨s, a, ha, ha', hlow, hhigh, -, -⟩ := exists_mantissa (Nat.le_of_not_lt hn)
    rw [index_eq ha ha' hlow hhigh]
    by_cases hi : i < 2 ^ b
    · rw [upper, if_pos hi]
      omega
    · obtain ⟨t, c, hc, hc', rfl, hupper⟩ := exists_bucket (Nat.le_of_not_lt hi)
      have hpos : 0 < (c + 1) * 2 ^ t := Nat.mul_pos (Nat.succ_pos c) (Nat.two_pow_pos t)
      rw [hupper, Nat.le_sub_one_iff_lt hpos]
      -- the exponents decide, and the mantissas where the exponents agree
      rcases Nat.lt_trichotomy s t with hst | rfl | hst
      · have hexp : (s + 1) * 2 ^ b ≤ t * 2 ^ b := Nat.mul_le_mul_right _ hst
        have hpow : 2 ^ (s + 1) ≤ 2 ^ t := Nat.pow_le_pow_right Nat.two_pos hst
        have hnum : n < (c + 1) * 2 ^ t := calc
          n < (a + 1) * 2 ^ s := hhigh
          _ ≤ 2 ^ b * 2 * 2 ^ s := Nat.mul_le_mul_right _ ha'
          _ = 2 ^ b * 2 ^ (s + 1) := by ring
          _ ≤ 2 ^ b * 2 ^ t := Nat.mul_le_mul_left _ hpow
          _ ≤ (c + 1) * 2 ^ t := Nat.mul_le_mul_right _ (by omega)
        rw [Nat.add_mul, Nat.one_mul] at hexp
        exact iff_of_true (by omega) hnum
      · have hmantissa : n < (c + 1) * 2 ^ s ↔ a ≤ c := by
          constructor
          · intro h
            exact Nat.lt_succ_iff.mp (Nat.lt_of_mul_lt_mul_right (hlow.trans_lt h))
          · intro h
            exact hhigh.trans_le (Nat.mul_le_mul_right _ (Nat.succ_le_succ h))
        rw [hmantissa]
        omega
      · have hexp : (t + 1) * 2 ^ b ≤ s * 2 ^ b := Nat.mul_le_mul_right _ hst
        have hpow : 2 ^ (t + 1) ≤ 2 ^ s := Nat.pow_le_pow_right Nat.two_pos hst
        have hnum : (c + 1) * 2 ^ t ≤ n := calc
          (c + 1) * 2 ^ t ≤ 2 ^ b * 2 * 2 ^ t := Nat.mul_le_mul_right _ hc'
          _ = 2 ^ b * 2 ^ (t + 1) := by ring
          _ ≤ 2 ^ b * 2 ^ s := Nat.mul_le_mul_left _ hpow
          _ ≤ a * 2 ^ s := Nat.mul_le_mul_right _ ha
          _ ≤ n := hlow
        rw [Nat.add_mul, Nat.one_mul] at hexp
        exact iff_of_false (by omega) (Nat.not_lt.mpr hnum)

/-- **No bucket is empty**: its upper bound is in it. -/
theorem index_upper (b i : ℕ) : index b (upper b i) = i := by
  by_cases hi : i < 2 ^ b
  · rw [upper, if_pos hi, index, if_pos hi]
  · obtain ⟨s, a, ha, ha', hindex, hupper⟩ := exists_bucket (Nat.le_of_not_lt hi)
    have hpos : 0 < 2 ^ s := Nat.two_pow_pos s
    have hsucc : (a + 1) * 2 ^ s = a * 2 ^ s + 2 ^ s := Nat.succ_mul a _
    rw [hupper, index_eq ha ha' (s := s) (by omega) (by omega), hindex]

/-- **The upper bound of its bucket exceeds a number by one part in `2 ^ b` at most.** -/
theorem upper_index_le (b n : ℕ) : upper b (index b n) ≤ n + n / 2 ^ b := by
  by_cases hn : n < 2 ^ b
  · rw [index, if_pos hn, upper, if_pos hn]
    exact Nat.le_add_right n _
  · obtain ⟨s, a, ha, ha', hlow, hhigh, -, -⟩ := exists_mantissa (Nat.le_of_not_lt hn)
    rw [index_eq ha ha' hlow hhigh]
    have hbucket : 2 ^ b ≤ s * 2 ^ b + a := ha.trans (Nat.le_add_left _ _)
    obtain ⟨t, c, hc, hc', heq, hupper⟩ := exists_bucket hbucket
    have hpos : 0 < 2 ^ b := Nat.two_pow_pos b
    have hs : s = t := by
      have hs' : s * 2 ^ b < (t + 1) * 2 ^ b := by
        rw [Nat.add_mul, Nat.one_mul]
        omega
      have ht' : t * 2 ^ b < (s + 1) * 2 ^ b := by
        rw [Nat.add_mul, Nat.one_mul]
        omega
      have := Nat.lt_of_mul_lt_mul_right hs'
      have := Nat.lt_of_mul_lt_mul_right ht'
      omega
    subst hs
    obtain rfl : a = c := Nat.add_left_cancel heq
    have hwidth : 2 ^ s ≤ n / 2 ^ b := by
      rw [Nat.le_div_iff_mul_le hpos, Nat.mul_comm]
      exact (Nat.mul_le_mul_right _ ha).trans hlow
    have hsucc : (a + 1) * 2 ^ s = a * 2 ^ s + 2 ^ s := Nat.succ_mul a _
    rw [hupper, hsucc]
    exact (Nat.sub_le _ 1).trans (Nat.add_le_add hlow hwidth)

/-- Numbers of `w` bits need `2 ^ b` buckets for each bit, from the `b`-th on. -/
theorem index_lt {w : ℕ} (hb : b ≤ w) (h : n < 2 ^ w) : index b n < (w - b + 1) * 2 ^ b := by
  by_cases hn : n < 2 ^ b
  · rw [index, if_pos hn]
    exact hn.trans_le (Nat.le_mul_of_pos_left _ (Nat.succ_pos _))
  · obtain ⟨s, a, ha, ha', hlow, hhigh, hs, -⟩ := exists_mantissa (Nat.le_of_not_lt hn)
    rw [index_eq ha ha' hlow hhigh]
    have hne : n ≠ 0 := fun h0 => hn (h0 ▸ Nat.two_pow_pos b)
    have hb' : b ≤ n.log2 := (Nat.le_log2 hne).mpr (Nat.le_of_not_lt hn)
    have hlog : n.log2 < w := (Nat.log2_lt hne).mpr h
    have hle : (s + 2) * 2 ^ b ≤ (w - b + 1) * 2 ^ b := Nat.mul_le_mul_right _ (by omega)
    have hsplit : (s + 2) * 2 ^ b = s * 2 ^ b + 2 ^ b * 2 := by ring
    omega

end LogBuckets

/-! ## Order statistics -/

section OrderStatistics

variable {α : Type*} {l : List α} {t : ℕ}

/-- **In a list with the hits in front, an element is a hit exactly if its place is below the number
of hits.** -/
theorem getElem_iff_lt_countP {p : α → Bool}
    (hfront : l.Pairwise fun x y => p y = true → p x = true) (ht : t < l.length) :
    p l[t] = true ↔ t < l.countP p := by
  induction l generalizing t with
  | nil => exact absurd ht (Nat.not_lt_zero t)
  | cons x l ih =>
    obtain ⟨hx, hl⟩ := List.pairwise_cons.mp hfront
    by_cases hp : p x = true
    · rw [List.countP_cons_of_pos hp]
      cases t with
      | zero => simp [hp]
      | succ t =>
        rw [List.getElem_cons_succ, ih hl, Nat.succ_lt_succ_iff]
    · have hnone : l.countP p = 0 :=
        List.countP_eq_zero.mpr fun y hy hpy => hp (hx y hy hpy)
      rw [List.countP_cons_of_neg hp, hnone]
      refine iff_of_false (fun hpt => hp ?_) (Nat.not_lt_zero t)
      cases t with
      | zero => exact hpt
      | succ t => exact hx _ (List.getElem_mem _) hpt

variable {β : Type*} [Preorder β] [DecidableLE β] {key : α → β}

/-- **A cumulative count reaches a target at the bucket of the order statistic.** -/
theorem le_countP_iff (hl : l.Pairwise fun x y => key x ≤ key y) (h0 : 0 < t)
    (ht : t - 1 < l.length) (k : β) :
    t ≤ l.countP (fun x => key x ≤ k) ↔ key l[t - 1] ≤ k := by
  have hfront : l.Pairwise fun x y =>
      decide (key y ≤ k) = true → decide (key x ≤ k) = true := by
    refine hl.imp fun hxy hy => ?_
    exact decide_eq_true (hxy.trans (of_decide_eq_true hy))
  have h := getElem_iff_lt_countP hfront ht
  rw [decide_eq_true_iff] at h
  rw [h]
  omega

end OrderStatistics

end Histogram
