import Mathlib.Algebra.Order.Floor.Ring
import Mathlib.Tactic.Ring
import Mathlib.Tactic.Linarith
import Mathlib.Tactic.FieldSimp

/-!
# Machinery/Grid — price grids, rounding to ticks, and 64-bit conversions

A grid is the set of points a whole number of ticks away from a base.  A program that keeps such
points in an array rounds an offset to ticks (`llround`, half away from zero, an `int64_t`) and
converts it to an index (`toSize`, a `size_t`).  `toSize_center_lt_iff` says that the round trip
through the two machine types accepts exactly the offsets inside the array.
-/

namespace Grid

/-! ## The grid of a base and a tick -/

section OnGrid

variable {K : Type*} [Field K]

/-- `p` is a whole number of ticks away from `base`. -/
def OnGrid (base tick p : K) : Prop := ∃ k : ℤ, p = base + k * tick

theorem onGrid_self (base tick : K) : OnGrid base tick base := ⟨0, by simp⟩

/-- **A grid can be named by any of its points.** -/
theorem OnGrid.rebase {base tick p q : K} (hp : OnGrid base tick p) (hq : OnGrid base tick q) :
    OnGrid p tick q := by
  obtain ⟨k, rfl⟩ := hp
  obtain ⟨l, rfl⟩ := hq
  exact ⟨l - k, by push_cast; ring⟩

theorem OnGrid.trans {base tick p q : K} (hp : OnGrid base tick p) (hq : OnGrid p tick q) :
    OnGrid base tick q := by
  obtain ⟨k, rfl⟩ := hp
  obtain ⟨l, rfl⟩ := hq
  exact ⟨k + l, by push_cast; ring⟩

end OnGrid

/-! ## Rounding -/

section Rounding

variable {K : Type*} [Field K] [LinearOrder K] [IsStrictOrderedRing K] [FloorRing K]

/-- Round to the nearest integer, halves away from zero. -/
def roundHalfAway (x : K) : ℤ := if 0 ≤ x then ⌊x + 1 / 2⌋ else -⌊-x + 1 / 2⌋

theorem floor_intCast_add_half (k : ℤ) : ⌊(k : K) + 1 / 2⌋ = k := by
  rw [Int.floor_intCast_add]
  have : ⌊(1 / 2 : K)⌋ = 0 := Int.floor_eq_zero_iff.mpr ⟨by norm_num, by norm_num⟩
  omega

@[simp] theorem roundHalfAway_intCast (k : ℤ) : roundHalfAway (k : K) = k := by
  rw [roundHalfAway]
  split
  · exact floor_intCast_add_half k
  · rw [← Int.cast_neg, floor_intCast_add_half, neg_neg]

end Rounding

/-- Round to the nearest integer, halves to the even one. -/
def roundHalfEven {K : Type*} [Field K] [LinearOrder K] [IsStrictOrderedRing K] [FloorRing K]
    (x : K) : ℤ :=
  if x - ⌊x⌋ < 1 / 2 then ⌊x⌋
  else if 1 / 2 < x - ⌊x⌋ then ⌊x⌋ + 1
  else if ⌊x⌋ % 2 = 0 then ⌊x⌋ else ⌊x⌋ + 1

/-! ## The machine types -/

/-- The value of an `int64_t` conversion: out of range it is the indefinite integer `INT64_MIN`. -/
def toInt64 (i : ℤ) : ℤ := if -2 ^ 63 ≤ i ∧ i < 2 ^ 63 then i else -2 ^ 63

/-- `static_cast<std::size_t>` of a signed 64-bit value. -/
def toSize (i : ℤ) : ℕ := (i % 2 ^ 64).toNat

/-- `std::llround`, on exact values. -/
def llround {K : Type*} [Field K] [LinearOrder K] [IsStrictOrderedRing K] [FloorRing K]
    (x : K) : ℤ := toInt64 (roundHalfAway x)

theorem toSize_of_nonneg {i : ℤ} (h0 : 0 ≤ i) (h1 : i < 2 ^ 64) : toSize i = i.toNat := by
  rw [toSize, Int.emod_eq_of_lt h0 h1]

/-- A negative value converts to the upper half of the range. -/
theorem le_toSize_of_neg {i : ℤ} (h0 : -2 ^ 63 ≤ i) (h1 : i < 0) : 2 ^ 63 ≤ toSize i := by
  have hmod : i % 2 ^ 64 = i + 2 ^ 64 := by
    rw [← Int.add_emod_right, Int.emod_eq_of_lt (by omega) (by omega)]
  rw [toSize, hmod]
  omega

/-- **An offset of `k` ticks from the centre of an array lands in the array exactly when it lands
there in unbounded arithmetic.** -/
theorem toSize_center_lt_iff {center depth : ℕ} (hc : center ≤ depth) (hd : depth < 2 ^ 62)
    (k : ℤ) :
    toSize (center + toInt64 k) < depth ↔ 0 ≤ center + k ∧ center + k < depth := by
  by_cases hk : -2 ^ 63 ≤ k ∧ k < 2 ^ 63
  · rw [toInt64, if_pos hk]
    by_cases h0 : 0 ≤ (center : ℤ) + k
    · rw [toSize_of_nonneg h0 (by omega)]
      omega
    · have := le_toSize_of_neg (i := (center : ℤ) + k) (by omega) (by omega)
      omega
  · rw [toInt64, if_neg hk]
    have := le_toSize_of_neg (i := (center : ℤ) + -2 ^ 63) (by omega) (by omega)
    omega

/-- …and then the index is the offset counted from the centre. -/
theorem toSize_center_eq {center depth : ℕ} (hd : depth < 2 ^ 62) {k : ℤ}
    (h : 0 ≤ center + k ∧ center + k < depth) (hc : center ≤ depth) :
    toSize (center + toInt64 k) = ((center : ℤ) + k).toNat := by
  rw [toInt64, if_pos (by omega), toSize_of_nonneg h.1 (by omega)]

end Grid
