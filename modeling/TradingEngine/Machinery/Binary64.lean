import Mathlib.Algebra.Order.Round
import Mathlib.Data.Int.Log
import Mathlib.Data.Rat.Floor
import Mathlib.Tactic.Linarith
import Mathlib.Tactic.NormNum

/-!
# Machinery/Binary64 — a rational number rounded to a double

A finite double is an integer multiple of a power of two; `round` takes the nearest one, ties to
even, and none where the result is too large or a number other than zero comes out as zero.

* `abs_nearestEven_sub_le` — an integer is taken at most one half away.
* `round_bounds` — a rounded number is within a factor of two of the number.
* `StandsFor.not_of_far` — numbers a factor of ten apart do not share a double.
-/

namespace Binary64

/-- The nearest integer, ties to even. -/
def nearestEven (y : ℚ) : ℤ :=
  if y - ⌊y⌋ < 1 / 2 then ⌊y⌋
  else if 1 / 2 < y - ⌊y⌋ then ⌊y⌋ + 1
  else if Even ⌊y⌋ then ⌊y⌋ else ⌊y⌋ + 1

/-- The last place of a double of this size: 53 bits, and no less than the smallest double. -/
def lastPlace (x : ℚ) : ℚ := 2 ^ max (Int.log 2 |x| - 52) (-1074)

/-- The nearest double, if it is in range. -/
def round (x : ℚ) : Option ℚ :=
  let n := nearestEven (x / lastPlace x)
  if n = 0 ∧ x ≠ 0 ∨ 2 ^ 1024 ≤ |n * lastPlace x| then none else some (n * lastPlace x)

variable {x q : ℚ}

theorem abs_nearestEven_sub_le (y : ℚ) : |nearestEven y - y| ≤ 1 / 2 := by
  have hfloor := Int.floor_le y
  have hlt := Int.lt_floor_add_one y
  rw [nearestEven, abs_le]
  split_ifs <;> push_cast <;> constructor <;> linarith

theorem lastPlace_pos (x : ℚ) : 0 < lastPlace x := zpow_pos (by norm_num) _

/-- An integer other than zero is within a factor of two of what rounds to it. -/
theorem bounds_of_abs_sub_le {y : ℚ} {n : ℤ} (h : |n - y| ≤ 1 / 2) (hn : n ≠ 0) :
    |(n : ℚ)| ≤ 2 * |y| ∧ |y| ≤ 2 * |(n : ℚ)| := by
  have hone : (1 : ℚ) ≤ |(n : ℚ)| := by
    rw [← Int.cast_abs]
    exact_mod_cast Int.one_le_abs hn
  have hle : |(n : ℚ)| - |y| ≤ |n - y| := abs_sub_abs_le_abs_sub _ _
  have hge : |y| - |(n : ℚ)| ≤ |n - y| := by
    rw [abs_sub_comm]
    exact abs_sub_abs_le_abs_sub _ _
  constructor <;> linarith

@[simp] theorem round_zero : round 0 = some 0 := by
  have hzero : nearestEven (0 / lastPlace 0) = 0 := by
    rw [zero_div]
    simp [nearestEven]
  simp only [round, hzero]
  norm_num

/-- **A rounded number is within a factor of two** of the number. -/
theorem round_bounds (h : round x = some q) : |q| ≤ 2 * |x| ∧ |x| ≤ 2 * |q| := by
  by_cases hx : x = 0
  · subst hx
    rw [round_zero, Option.some.injEq] at h
    simp [← h]
  · have hunit := lastPlace_pos x
    simp only [round] at h
    split_ifs at h with hrange
    have hn : nearestEven (x / lastPlace x) ≠ 0 := fun hn => hrange (Or.inl ⟨hn, hx⟩)
    obtain ⟨hle, hge⟩ := bounds_of_abs_sub_le (abs_nearestEven_sub_le (x / lastPlace x)) hn
    rw [Option.some.injEq] at h
    rw [← h, abs_mul, abs_of_pos hunit]
    rw [abs_div, abs_of_pos hunit] at hle hge
    rw [← mul_div_assoc, le_div_iff₀ hunit] at hle
    rw [div_le_iff₀ hunit] at hge
    exact ⟨hle, by rwa [← mul_assoc]⟩

/-- A double that stands for a number: the number itself, or what it is rounded to. -/
def StandsFor (q x : ℚ) : Prop := q = x ∨ round x = some q

theorem StandsFor.bounds (h : StandsFor q x) : |q| ≤ 2 * |x| ∧ |x| ≤ 2 * |q| := by
  rcases h with rfl | h
  · constructor <;> linarith [abs_nonneg q]
  · exact round_bounds h

/-- **Numbers a factor of ten apart** do not share a double. -/
theorem StandsFor.not_of_far {x' : ℚ} (h : StandsFor q x) (hx : x ≠ 0)
    (hfar : 10 * |x| ≤ |x'|) : ¬ StandsFor q x' := by
  intro h'
  have hpos := abs_pos.mpr hx
  have hle := h.bounds.1
  have hge := h'.bounds.2
  linarith

end Binary64
