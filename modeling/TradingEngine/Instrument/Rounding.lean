import Mathlib.Algebra.Order.Floor.Semifield
import TradingEngine.Instrument
import TradingEngine.Machinery.FixedPoint

/-!
# Instrument/Rounding — rounding through the text of a double

`get_round_up_quantity` and `get_round_up_price` write a number with `std::to_string`, which rounds
it to six decimals, cut the text behind the decimals of the instrument, and read what is left.  The
cut is towards zero; the rounding in front of it is not, and it happens whatever the precision.

* `largestBelow_iff` — the numbers for which the result is the largest multiple of the step that is
  not above them.
* `roundUp_even` — the arithmetic the strategies are modelled with is this text.

Sizes are 64 bits wide: a precision near `2 ^ 64`, which `get_rounded_number` gives to a step
without a `'1'`, moves the cut in front of the point.
-/

namespace TradingEngine

open Ascii

/-- What `std::to_string` makes of a number halfway between two texts. -/
inductive Tie
  | away
  | even
  deriving DecidableEq, Repr

def Tie.round (tie : Tie) (x : ℚ) : ℤ :=
  match tie with
  | .away => Grid.roundHalfAway x
  | .even => Grid.roundHalfEven x

namespace InstrumentText

/-- `std::to_string` on a double. -/
def toString (tie : Tie) (x : ℚ) : List UInt8 :=
  FixedPoint.write 6 (x < 0) (tie.round (|x| * 10 ^ 6)).toNat

/-- `round_string_number`; the position is a size, and sizes wrap. -/
def roundStringNumber (strNumber : List UInt8) (precision : ℕ) : List UInt8 :=
  match strNumber.findIdx? (· = dot) with
  | none => strNumber
  | some pointPos =>
    strNumber.take ((pointPos + if precision = 0 then 0 else (precision + 1) % 2 ^ 64) % 2 ^ 64)

/-- The cut text read by `std::stod`, `none` if it throws. -/
def roundUp (tie : Tie) (x : ℚ) (precision : ℕ) : Option ℚ :=
  FixedPoint.read (roundStringNumber (toString tie x) precision)

def getRoundUpQuantity (tie : Tie) (i : Instrument) (quantity : ℚ) : Option ℚ :=
  roundUp tie quantity i.lotSize

def getRoundUpPrice (tie : Tie) (i : Instrument) (price : ℚ) : Option ℚ :=
  roundUp tie price i.tickSize

/-! ## Rounding to millionths -/

variable {tie : Tie} {x : ℚ} {k : ℕ}

/-- The number rounds to the integer above it. -/
def RoundsUp (tie : Tie) (y : ℚ) : Prop :=
  1 / 2 < y - ⌊y⌋₊ ∨ y - ⌊y⌋₊ = 1 / 2 ∧ (tie = .away ∨ ¬ Even ⌊y⌋₊)

theorem round_of_roundsUp {y : ℚ} (h0 : 0 ≤ y) (h : RoundsUp tie y) :
    tie.round y = (⌊y⌋₊ + 1 : ℕ) := by
  have hfloor : ⌊y⌋ = (⌊y⌋₊ : ℤ) := (Int.natCast_floor_eq_floor h0).symm
  have hlt := Nat.lt_floor_add_one y
  have hhalf : 1 / 2 ≤ y - ⌊y⌋₊ := h.elim le_of_lt fun heq => heq.1.ge
  cases tie
  · rw [Tie.round, Grid.roundHalfAway, if_pos h0, Int.floor_eq_iff]
    push_cast
    exact ⟨by linarith, by linarith⟩
  · rw [Tie.round, Grid.roundHalfEven, hfloor, Int.cast_natCast, if_neg (not_lt.mpr hhalf)]
    rcases h with h | ⟨heq, h⟩
    · rw [if_pos h]
      rfl
    · have hodd : ¬ (⌊y⌋₊ : ℤ) % 2 = 0 := fun hmod =>
        h.resolve_left Tie.noConfusion (Nat.even_iff.mpr (by omega))
      rw [if_neg (not_lt.mpr heq.le), if_neg hodd]
      rfl

theorem round_of_not_roundsUp {y : ℚ} (h0 : 0 ≤ y) (h : ¬ RoundsUp tie y) :
    tie.round y = ⌊y⌋₊ := by
  have hfloor : ⌊y⌋ = (⌊y⌋₊ : ℤ) := (Int.natCast_floor_eq_floor h0).symm
  have hle := Nat.floor_le h0
  rw [RoundsUp, not_or, not_lt, not_and, not_or, not_not] at h
  cases tie
  · have hlt : y - ⌊y⌋₊ < 1 / 2 := lt_of_le_of_ne h.1 fun heq => (h.2 heq).1 rfl
    rw [Tie.round, Grid.roundHalfAway, if_pos h0, Int.floor_eq_iff]
    push_cast
    exact ⟨by linarith, by linarith⟩
  · rw [Tie.round, Grid.roundHalfEven, hfloor, Int.cast_natCast]
    by_cases heq : y - ⌊y⌋₊ = 1 / 2
    · have heven : (⌊y⌋₊ : ℤ) % 2 = 0 := by
        have := Nat.even_iff.mp (h.2 heq).2
        omega
      rw [if_neg (not_lt.mpr heq.ge), if_neg (not_lt.mpr heq.le), if_pos heven]
    · rw [if_pos (lt_of_le_of_ne h.1 heq)]

theorem round_eq_or (tie : Tie) {y : ℚ} (h0 : 0 ≤ y) :
    RoundsUp tie y ∧ tie.round y = (⌊y⌋₊ + 1 : ℕ) ∨ ¬ RoundsUp tie y ∧ tie.round y = ⌊y⌋₊ := by
  by_cases hup : RoundsUp tie y
  · exact .inl ⟨hup, round_of_roundsUp h0 hup⟩
  · exact .inr ⟨hup, round_of_not_roundsUp h0 hup⟩

theorem round_nonneg {y : ℚ} (h0 : 0 ≤ y) : 0 ≤ tie.round y := by
  rcases round_eq_or tie h0 with ⟨-, h⟩ | ⟨-, h⟩
  · exact h ▸ Int.natCast_nonneg _
  · exact h ▸ Int.natCast_nonneg _

/-- **What rounds to a number or more**: all from one half below it on, and that half if it is a
tie that goes up. -/
theorem le_round_iff {y : ℚ} (h0 : 0 ≤ y) {m : ℕ} :
    (m : ℤ) ≤ tie.round y ↔
      (m : ℚ) - 1 / 2 < y ∨ (m : ℚ) - 1 / 2 = y ∧ (tie = .away ∨ Even m) := by
  have hle := Nat.floor_le h0
  have hlt := Nat.lt_floor_add_one y
  have hround := round_eq_or tie h0
  rcases lt_trichotomy m (⌊y⌋₊ + 1) with hbelow | heq | habove
  · have hcast : (m : ℚ) ≤ ⌊y⌋₊ := by exact_mod_cast Nat.lt_succ_iff.mp hbelow
    exact iff_of_true (by omega) (Or.inl (by linarith))
  · have hcast : (m : ℚ) = ⌊y⌋₊ + 1 := by exact_mod_cast heq
    have hup : (m : ℤ) ≤ tie.round y ↔ RoundsUp tie y := by
      rcases hround with ⟨hup, hround⟩ | ⟨hup, hround⟩
      · exact iff_of_true (by omega) hup
      · exact iff_of_false (by omega) hup
    have heven : Even m ↔ ¬ Even ⌊y⌋₊ := by rw [heq, Nat.even_add_one]
    rw [hup, RoundsUp, heven, hcast]
    refine or_congr ?_ (and_congr_left' ?_)
    · exact ⟨fun h => by linarith, fun h => by linarith⟩
    · exact ⟨fun h => by linarith, fun h => by linarith⟩
  · have hcast : (⌊y⌋₊ : ℚ) + 2 ≤ m := by exact_mod_cast habove
    refine iff_of_false (by omega) ?_
    rintro (h | ⟨h, -⟩)
    · linarith
    · linarith

theorem round_natCast (tie : Tie) (n : ℕ) : tie.round (n : ℚ) = n := by
  have hdown : ¬ RoundsUp tie (n : ℚ) := by
    rw [RoundsUp, Nat.floor_natCast, sub_self]
    rintro (h | ⟨h, -⟩) <;> norm_num at h
  rw [round_of_not_roundsUp (Nat.cast_nonneg n) hdown, Nat.floor_natCast]

/-- A number has no more decimal digits than binary ones. -/
theorem length_decimal_le {n e : ℕ} (h : n ≤ 2 ^ e) : (decimal n).length ≤ e + 1 := by
  rw [decimal, List.length_map, digits]
  split_ifs with h0
  · exact Nat.le_add_left 1 e
  · rw [List.length_reverse, Nat.digits_length_le_iff (by decide)]
    calc n ≤ 2 ^ e := h
      _ ≤ 10 ^ e := Nat.pow_le_pow_left (by decide) e
      _ < 10 ^ (e + 1) := Nat.pow_lt_pow_right (by decide) (Nat.lt_succ_self e)

/-- The millionths that `std::to_string` writes. -/
def millionths (tie : Tie) (x : ℚ) : ℕ := (tie.round (x * 10 ^ 6)).toNat

theorem toString_eq (h0 : 0 ≤ x) :
    toString tie x = FixedPoint.write 6 false (millionths tie x) := by
  rw [toString, millionths, abs_of_nonneg h0, decide_eq_false (not_lt.mpr h0)]

/-- Where the point of the text stands. -/
def point (tie : Tie) (x : ℚ) : ℕ := (decimal (millionths tie x / 10 ^ 6)).length

theorem roundUp_eq (h0 : 0 ≤ x) (k : ℕ) :
    roundUp tie x k = FixedPoint.read ((toString tie x).take
      ((point tie x + if k = 0 then 0 else (k + 1) % 2 ^ 64) % 2 ^ 64)) := by
  have hpoint : FixedPoint.pointOf 6 false (millionths tie x) = point tie x := Nat.zero_add _
  rw [roundUp, roundStringNumber, toString_eq h0, FixedPoint.findIdx_dot, hpoint]

/-- **The cut in front of the wrapping**: up to six decimals are kept, the others were not there. -/
theorem roundUp_of_lt (h0 : 0 ≤ x) (hfit : point tie x + k + 1 < 2 ^ 64) :
    roundUp tie x k =
      some (((millionths tie x / 10 ^ (6 - min k 6) : ℕ) : ℚ) / 10 ^ min k 6) := by
  have hpoint : FixedPoint.pointOf 6 false (millionths tie x) = point tie x := Nat.zero_add _
  rw [roundUp_eq h0, toString_eq h0, ← hpoint]
  by_cases hk : k = 0
  · subst hk
    rw [← hpoint] at hfit
    rw [if_pos rfl, Nat.add_zero, Nat.mod_eq_of_lt (by omega), FixedPoint.read_take_point]
    simp [FixedPoint.signed]
  rw [← hpoint] at hfit
  rw [if_neg hk, Nat.mod_eq_of_lt (show k + 1 < 2 ^ 64 by omega), Nat.mod_eq_of_lt (by omega),
    Nat.add_comm k 1, ← Nat.add_assoc]
  by_cases hle : k ≤ 6
  · rw [FixedPoint.read_take false hle, Nat.min_eq_left hle]
    rfl
  · have hall := FixedPoint.read_take (n := millionths tie x) false (le_refl 6)
    have hlen : (FixedPoint.write 6 false (millionths tie x)).length =
        FixedPoint.pointOf 6 false (millionths tie x) + 1 + 6 := by
      simp [FixedPoint.write, FixedPoint.pointOf]
    rw [List.take_of_length_le hlen.le] at hall
    rw [List.take_of_length_le (by omega), hall, Nat.min_eq_right (by omega)]
    rfl

/-! ## Steps and integers -/

/-- At least the smallest number with `k` decimals, less half a millionth. -/
def ReachesStep (tie : Tie) (k : ℕ) (x : ℚ) : Prop :=
  1 / 10 ^ min k 6 - 1 / 2 / 10 ^ 6 < x ∨
    1 / 10 ^ min k 6 - 1 / 2 / 10 ^ 6 = x ∧ (tie = .away ∨ k < 6)

instance (tie : Tie) (k : ℕ) (x : ℚ) : Decidable (ReachesStep tie k x) :=
  inferInstanceAs (Decidable (_ ∨ _))

theorem ReachesStep.mono {y : ℚ} (h : ReachesStep tie k x) (hxy : x ≤ y) : ReachesStep tie k y := by
  rcases hxy.lt_or_eq with hlt | rfl
  · refine Or.inl ?_
    rcases h with h | ⟨h, -⟩
    · exact h.trans hlt
    · exact h.trans_lt hlt
  · exact h

/-- **A number is not rounded to zero** exactly if it reaches the step. -/
theorem roundUp_pos_iff (h0 : 0 ≤ x) (hfit : point tie x + k + 1 < 2 ^ 64) :
    (∀ r ∈ roundUp tie x k, 0 < r) ↔ ReachesStep tie k x := by
  have hmillion : (0 : ℚ) < 10 ^ 6 := by positivity
  set e := 6 - min k 6 with he
  have hpow : (10 : ℚ) ^ e / 10 ^ 6 = 1 / 10 ^ min k 6 := by
    rw [div_eq_div_iff (by positivity) (by positivity), ← pow_add, one_mul]
    congr 1
    omega
  have hround : 0 ≤ tie.round (x * 10 ^ 6) := round_nonneg (by positivity)
  have hpos : (∀ r ∈ roundUp tie x k, 0 < r) ↔ ((10 ^ e : ℕ) : ℤ) ≤ tie.round (x * 10 ^ 6) := by
    rw [roundUp_of_lt h0 hfit, ← he]
    simp only [Option.mem_some_iff, forall_eq']
    rw [div_pos_iff_of_pos_right (by positivity), Nat.cast_pos, Nat.div_pos_iff, millionths]
    have := Nat.pow_pos (n := e) (show 0 < 10 by decide)
    omega
  have heven : Even (10 ^ e) ↔ k < 6 := by
    rw [Nat.even_pow]
    exact ⟨fun h => by omega, fun h => ⟨by decide, by omega⟩⟩
  have hhalf : ((10 ^ e : ℕ) : ℚ) - 1 / 2 = (1 / 10 ^ min k 6 - 1 / 2 / 10 ^ 6) * 10 ^ 6 := by
    rw [← hpow]
    push_cast
    field_simp
  rw [hpos, le_round_iff (by positivity), heven, hhalf, ReachesStep,
    mul_lt_mul_iff_of_pos_right hmillion, mul_left_inj' hmillion.ne']

theorem millionths_natCast (n : ℕ) : millionths tie n = n * 10 ^ 6 := by
  rw [millionths, show (n : ℚ) * 10 ^ 6 = (n * 10 ^ 6 : ℕ) by push_cast; rfl, round_natCast,
    Int.toNat_natCast]

theorem div_millionths_natCast (n : ℕ) {j : ℕ} (hj : j ≤ 6) :
    ((millionths tie n / 10 ^ (6 - j) : ℕ) : ℚ) / 10 ^ j = n := by
  have hpow : 10 ^ 6 = 10 ^ j * 10 ^ (6 - j) := by
    rw [← Nat.pow_add, Nat.add_sub_cancel' hj]
  rw [millionths_natCast, hpow, ← Nat.mul_assoc, Nat.mul_div_cancel _ (Nat.pow_pos (by decide))]
  push_cast
  rw [mul_div_cancel_right₀ _ (by positivity)]

/-- **An integer is kept.** -/
theorem roundUp_natCast {n : ℕ} (hfit : point tie n + k + 1 < 2 ^ 64) :
    roundUp tie n k = some (n : ℚ) := by
  rw [roundUp_of_lt (Nat.cast_nonneg n) hfit, div_millionths_natCast n (Nat.min_le_right k 6)]

/-- **An integer does not become more**, wherever its text is cut. -/
theorem roundUp_natCast_le {n : ℕ} {r : ℚ} (h : r ∈ roundUp tie n k) : r ≤ n := by
  have hpoint : FixedPoint.pointOf 6 false (millionths tie n) = point tie n := Nat.zero_add _
  have hint : ((millionths tie n / 10 ^ 6 : ℕ) : ℚ) = n := by
    rw [millionths_natCast, Nat.mul_div_cancel _ (by decide)]
  rw [roundUp_eq (Nat.cast_nonneg n), toString_eq (Nat.cast_nonneg n), ← hpoint] at h
  generalize (FixedPoint.pointOf 6 false (millionths tie n) + if k = 0 then 0 else (k + 1) % 2 ^ 64)
    % 2 ^ 64 = t at h
  rcases lt_trichotomy t (FixedPoint.pointOf 6 false (millionths tie n)) with hfront | rfl | hbehind
  · obtain ⟨-, hle⟩ := FixedPoint.read_take_front hfront h
    rw [hint] at hle
    have := Nat.cast_nonneg (α := ℚ) n
    linarith
  · rw [FixedPoint.read_take_point, FixedPoint.signed, if_neg Bool.false_ne_true, hint] at h
    exact (Option.some.inj h).ge
  · obtain ⟨j, rfl⟩ := Nat.exists_eq_add_of_lt hbehind
    have hcut := FixedPoint.read_take (n := millionths tie n) false (Nat.min_le_right j 6)
    have htake : (FixedPoint.write 6 false (millionths tie n)).take
          (FixedPoint.pointOf 6 false (millionths tie n) + j + 1) =
        (FixedPoint.write 6 false (millionths tie n)).take
          (FixedPoint.pointOf 6 false (millionths tie n) + 1 + min j 6) := by
      have hlen : (FixedPoint.write 6 false (millionths tie n)).length =
          FixedPoint.pointOf 6 false (millionths tie n) + 1 + 6 := by
        simp [FixedPoint.write, FixedPoint.pointOf]
      rcases Nat.le_total j 6 with hle | hle
      · rw [Nat.min_eq_left hle, Nat.add_right_comm]
      · rw [Nat.min_eq_right hle, List.take_of_length_le (by omega),
          List.take_of_length_le hlen.le]
    rw [htake, hcut, FixedPoint.signed, if_neg Bool.false_ne_true,
      div_millionths_natCast n (Nat.min_le_right j 6)] at h
    exact (Option.some.inj h).ge

/-! ## The largest multiple below -/

/-- `r` is the largest multiple of `10 ^ -k` that is not above `x`. -/
def LargestBelow (k : ℕ) (x r : ℚ) : Prop :=
  (∃ m : ℤ, r = m / 10 ^ k) ∧ r ≤ x ∧ x - r < 1 / 10 ^ k

theorem largestBelow_natCast (h0 : 0 ≤ x) (k m : ℕ) :
    LargestBelow k x (m / 10 ^ k) ↔ m = ⌊x * 10 ^ k⌋₊ := by
  have hpos : (0 : ℚ) < 10 ^ k := by positivity
  rw [LargestBelow, eq_comm, Nat.floor_eq_iff (mul_nonneg h0 hpos.le), div_le_iff₀ hpos,
    sub_lt_iff_lt_add, ← add_div, lt_div_iff₀ hpos, add_comm 1 (m : ℚ)]
  exact and_iff_right ⟨m, by rw [Int.cast_natCast]⟩

/-- **The rounding in front of the cut does no harm.**  Up to six decimals, the next step is more
than half a millionth away, or just as much and the tie goes to an even millionth below.  Past six
decimals nothing is cut, so the number has to be hardly above a multiple of a millionth; and where
the position wraps to the point, hardly above an integer. -/
def CutsDown (tie : Tie) (k : ℕ) (x : ℚ) : Prop :=
  if k ≤ 6 then
    let gap := ((⌊x * 10 ^ k⌋₊ : ℚ) + 1) / 10 ^ k - x
    1 / 2 / 10 ^ 6 < gap ∨ gap = 1 / 2 / 10 ^ 6 ∧ tie = .even ∧ k = 6 ∧ Even ⌊x * 10 ^ 6⌋₊
  else if (decimal ⌊x⌋₊).length + k + 1 < 2 ^ 64 then x - ⌊x * 10 ^ 6⌋₊ / 10 ^ 6 < 1 / 10 ^ k
  else k + 1 = 2 ^ 64 ∧ x - ⌊x⌋₊ < 1 / 10 ^ k

theorem millionths_of_roundsUp (h0 : 0 ≤ x) (h : RoundsUp tie (x * 10 ^ 6)) :
    millionths tie x = ⌊x * 10 ^ 6⌋₊ + 1 := by
  rw [millionths, round_of_roundsUp (by positivity) h, Int.toNat_natCast]

theorem millionths_of_not_roundsUp (h0 : 0 ≤ x) (h : ¬ RoundsUp tie (x * 10 ^ 6)) :
    millionths tie x = ⌊x * 10 ^ 6⌋₊ := by
  rw [millionths, round_of_not_roundsUp (by positivity) h, Int.toNat_natCast]

/-- **Up to six decimals** the cut is right unless the rounding reaches the next step. -/
theorem div_eq_iff_cutsDown (h0 : 0 ≤ x) (hk : k ≤ 6) :
    millionths tie x / 10 ^ (6 - k) = ⌊x * 10 ^ k⌋₊ ↔ CutsDown tie k x := by
  rw [CutsDown, if_pos hk]
  set j := ⌊x * 10 ^ 6⌋₊ with hj
  set d := 10 ^ (6 - k) with hd
  have hdpos : 0 < d := Nat.pow_pos (by decide)
  have hpow : (10 : ℚ) ^ 6 = 10 ^ k * d := by
    rw [hd, Nat.cast_pow, Nat.cast_ofNat, ← pow_add, Nat.add_sub_cancel' hk]
  have hfloor : ⌊x * 10 ^ k⌋₊ = j / d := by
    have hdiv : x * 10 ^ k = x * 10 ^ 6 / d := by
      rw [hpow]
      field_simp
    rw [hdiv, Nat.floor_div_natCast]
  have hle : (j : ℚ) ≤ x * 10 ^ 6 := Nat.floor_le (by positivity)
  have hlt : x * 10 ^ 6 < j + 1 := Nat.lt_floor_add_one _
  -- the gap in millionths
  have hgap : ((⌊x * 10 ^ k⌋₊ : ℚ) + 1) / 10 ^ k - x =
      ((((j / d + 1) * d : ℕ) : ℚ) - x * 10 ^ 6) / 10 ^ 6 := by
    rw [hfloor, hpow]
    push_cast
    field_simp
  have hmillion : (0 : ℚ) < 10 ^ 6 := by positivity
  simp only [hgap]
  rw [div_lt_div_iff_of_pos_right hmillion, div_left_inj' hmillion.ne', hfloor]
  by_cases hdvd : d ∣ j + 1
  · have hnext : (j / d + 1) * d = j + 1 := by
      rw [← Nat.succ_div_of_dvd hdvd, Nat.div_mul_cancel hdvd]
    rw [hnext]
    push_cast
    by_cases hup : RoundsUp tie (x * 10 ^ 6)
    · rw [millionths_of_roundsUp h0 hup, ← hj, Nat.succ_div_of_dvd hdvd]
      rw [RoundsUp, ← hj] at hup
      refine iff_of_false (by omega) ?_
      rintro (hgt | ⟨heq, rfl, rfl, heven⟩)
      · rcases hup with hup | hup
        · linarith
        · linarith [hup.1]
      · rcases hup with hup | hup
        · linarith
        · exact hup.2.elim nofun fun hodd => hodd heven
    · rw [millionths_of_not_roundsUp h0 hup, ← hj]
      rw [RoundsUp, ← hj, not_or, not_lt, not_and, not_or, not_not] at hup
      refine iff_of_true rfl ?_
      by_cases heq : x * 10 ^ 6 - j = 1 / 2
      · obtain ⟨htie, heven⟩ := hup.2 heq
        refine Or.inr ⟨by linarith, ?_, ?_, heven⟩
        · cases tie
          · exact absurd rfl htie
          · rfl
        · by_contra hne
          have hten : 10 ∣ d := dvd_pow_self 10 (by omega)
          have := Nat.dvd_trans hten hdvd
          have := Nat.even_iff.mp heven
          omega
      · have := lt_of_le_of_ne hup.1 heq
        exact Or.inl (by linarith)
  · have hnext : j + 2 ≤ (j / d + 1) * d := by
      have hlt' : j < (j / d + 1) * d := Nat.lt_mul_of_div_lt (Nat.lt_succ_self _) hdpos
      have hne : j + 1 ≠ (j / d + 1) * d := fun heq => hdvd ⟨_, by rw [heq, Nat.mul_comm]⟩
      omega
    have hnext' : (j : ℚ) + 2 ≤ ((j / d + 1) * d : ℕ) := by exact_mod_cast hnext
    refine iff_of_true ?_ (Or.inl (by linarith))
    by_cases hup : RoundsUp tie (x * 10 ^ 6)
    · rw [millionths_of_roundsUp h0 hup, ← hj, Nat.succ_div_of_not_dvd hdvd]
    · rw [millionths_of_not_roundsUp h0 hup, ← hj]

/-- A number hardly above a multiple of a millionth is rounded down. -/
theorem not_roundsUp_of_lt (hk : ¬ k ≤ 6) (h : x - ⌊x * 10 ^ 6⌋₊ / 10 ^ 6 < 1 / 10 ^ k) :
    ¬ RoundsUp tie (x * 10 ^ 6) := by
  have hpow : (1 : ℚ) / 10 ^ k ≤ 1 / 10 ^ 7 := by
    refine one_div_le_one_div_of_le (by positivity) ?_
    exact pow_le_pow_right₀ (by norm_num) (by omega)
  have hlt : x * 10 ^ 6 - ⌊x * 10 ^ 6⌋₊ < 1 / 2 := by
    rw [show (1 : ℚ) / 10 ^ 7 = 1 / 10 / 10 ^ 6 by norm_num] at hpow
    have := h.trans_le hpow
    rw [sub_lt_iff_lt_add, ← add_div, lt_div_iff₀ (by positivity)] at this
    linarith
  rintro (hup | ⟨hup, -⟩)
  · exact absurd hup (not_lt.mpr hlt.le)
  · exact absurd hup hlt.ne

/-- **Past six decimals** nothing is cut. -/
theorem largestBelow_millionths (h0 : 0 ≤ x) (hk : ¬ k ≤ 6) :
    LargestBelow k x ((millionths tie x : ℚ) / 10 ^ 6) ↔
      x - ⌊x * 10 ^ 6⌋₊ / 10 ^ 6 < 1 / 10 ^ k := by
  have hmillion : (0 : ℚ) < 10 ^ 6 := by positivity
  constructor
  · rintro ⟨-, hle, hlt⟩
    by_cases hup : RoundsUp tie (x * 10 ^ 6)
    · rw [millionths_of_roundsUp h0 hup, div_le_iff₀ hmillion] at hle
      push_cast at hle
      exact absurd hle (not_le.mpr (Nat.lt_floor_add_one _))
    · rwa [millionths_of_not_roundsUp h0 hup] at hlt
  · intro h
    rw [millionths_of_not_roundsUp h0 (not_roundsUp_of_lt hk h)]
    refine ⟨⟨⌊x * 10 ^ 6⌋₊ * 10 ^ (k - 6), ?_⟩, ?_, h⟩
    · have hpow : (10 : ℚ) ^ k = 10 ^ 6 * 10 ^ (k - 6) := by
        rw [← pow_add, Nat.add_sub_cancel' (by omega)]
      push_cast
      rw [hpow]
      field_simp
    · rw [div_le_iff₀ hmillion]
      exact Nat.floor_le (by positivity)

/-- A number hardly above an integer is hardly above a multiple of a millionth, the integer. -/
theorem floor_of_lt (h0 : 0 ≤ x) (hk : ¬ k ≤ 6) (h : x - ⌊x⌋₊ < 1 / 10 ^ k) :
    ⌊x * 10 ^ 6⌋₊ = ⌊x⌋₊ * 10 ^ 6 := by
  have hpow : (1 : ℚ) / 10 ^ k ≤ 1 / 10 ^ 6 :=
    one_div_le_one_div_of_le (by positivity) (pow_le_pow_right₀ (by norm_num) (by omega))
  have hle := Nat.floor_le h0
  have hlt := h.trans_le hpow
  rw [sub_lt_iff_lt_add, div_add' _ _ _ (by positivity), lt_div_iff₀ (by positivity)] at hlt
  rw [Nat.floor_eq_iff (by positivity)]
  push_cast
  exact ⟨by linarith, by linarith⟩

/-- **Where the position wraps to the point** all decimals are cut. -/
theorem largestBelow_integer (h0 : 0 ≤ x) (hk : ¬ k ≤ 6) :
    LargestBelow k x ((millionths tie x / 10 ^ 6 : ℕ) : ℚ) ↔ x - ⌊x⌋₊ < 1 / 10 ^ k := by
  have hone : (1 : ℚ) / 10 ^ k ≤ 1 := by
    rw [div_le_one (by positivity)]
    exact one_le_pow₀ (by norm_num)
  constructor
  · rintro ⟨-, hle, hlt⟩
    have hfloor : ⌊x⌋₊ = millionths tie x / 10 ^ 6 :=
      (Nat.floor_eq_iff h0).mpr ⟨hle, by linarith⟩
    rwa [hfloor]
  · intro h
    have hfloor := floor_of_lt h0 hk h
    have hround : ¬ RoundsUp tie (x * 10 ^ 6) := by
      refine not_roundsUp_of_lt hk ?_
      rwa [hfloor, Nat.cast_mul, Nat.cast_pow, Nat.cast_ofNat,
        mul_div_cancel_right₀ _ (by positivity)]
    rw [millionths_of_not_roundsUp h0 hround, hfloor, Nat.mul_div_cancel _ (by decide)]
    refine ⟨⟨⌊x⌋₊ * 10 ^ k, ?_⟩, Nat.floor_le h0, h⟩
    push_cast
    rw [mul_div_cancel_right₀ _ (by positivity)]

/-- **Where it wraps in front of the point** digits of the integer are cut. -/
theorem not_largestBelow_front {t : ℕ} {r : ℚ} (h0 : 0 ≤ x) (ht : t < point tie x)
    (hread : FixedPoint.read ((toString tie x).take t) = some r) : ¬ LargestBelow k x r := by
  rintro ⟨-, -, hlt⟩
  have hpoint : FixedPoint.pointOf 6 false (millionths tie x) = point tie x := Nat.zero_add _
  rw [toString_eq h0] at hread
  obtain ⟨hpos, hle⟩ := FixedPoint.read_take_front (by rwa [hpoint]) hread
  have hone : (1 : ℚ) / 10 ^ k ≤ 1 := by
    rw [div_le_one (by positivity)]
    exact one_le_pow₀ (by norm_num)
  have hten : 10 ≤ millionths tie x / 10 ^ 6 := by
    by_contra hsmall
    have hdigits : (decimal (millionths tie x / 10 ^ 6)).length ≤ 1 := by
      rw [decimal, List.length_map, digits]
      split_ifs
      · exact le_rfl
      · rw [List.length_reverse, Nat.digits_length_le_iff (by decide)]
        omega
    rw [point] at ht
    omega
  have hround : (millionths tie x : ℚ) ≤ x * 10 ^ 6 + 1 := by
    have hfloor := Nat.floor_le (show 0 ≤ x * 10 ^ 6 by positivity)
    by_cases hup : RoundsUp tie (x * 10 ^ 6)
    · rw [millionths_of_roundsUp h0 hup]
      push_cast
      linarith
    · rw [millionths_of_not_roundsUp h0 hup]
      linarith
  have hdiv : ((millionths tie x / 10 ^ 6 : ℕ) : ℚ) * 10 ^ 6 ≤ millionths tie x := by
    exact_mod_cast Nat.div_mul_le_self _ _
  have hten' : (10 : ℚ) ≤ (millionths tie x / 10 ^ 6 : ℕ) := by exact_mod_cast hten
  linarith

/-- The point of a double is not far from the start of its text. -/
theorem point_le {e : ℕ} (h0 : 0 ≤ x) (hx : x < 2 ^ e) : point tie x ≤ e + 1 := by
  refine length_decimal_le ?_
  have hfloor : ⌊x * 10 ^ 6⌋₊ < 2 ^ e * 10 ^ 6 := by
    rw [Nat.floor_lt (by positivity)]
    push_cast
    exact mul_lt_mul_of_pos_right hx (by positivity)
  refine Nat.div_le_of_le_mul ?_
  rw [Nat.mul_comm]
  by_cases hup : RoundsUp tie (x * 10 ^ 6)
  · rw [millionths_of_roundsUp h0 hup]
    exact hfloor
  · rw [millionths_of_not_roundsUp h0 hup]
    exact hfloor.le

theorem point_of_not_roundsUp (h0 : 0 ≤ x) (h : ¬ RoundsUp tie (x * 10 ^ 6)) :
    point tie x = (decimal ⌊x⌋₊).length := by
  have hfloor : ⌊x * 10 ^ 6⌋₊ / 10 ^ 6 = ⌊x⌋₊ := by
    rw [← Nat.floor_div_natCast, Nat.cast_pow, Nat.cast_ofNat,
      mul_div_cancel_right₀ _ (by positivity)]
  rw [point, millionths_of_not_roundsUp h0 h, hfloor]

/-- Where the position does not wrap, the whole text is read. -/
theorem roundUp_whole_iff (h0 : 0 ≤ x) (hk : ¬ k ≤ 6) (hfit : point tie x + k + 1 < 2 ^ 64) :
    (∃ r, roundUp tie x k = some r ∧ LargestBelow k x r) ↔
      x - ⌊x * 10 ^ 6⌋₊ / 10 ^ 6 < 1 / 10 ^ k := by
  have hlargest : LargestBelow k x ((millionths tie x : ℚ) / 10 ^ 6) ↔ _ :=
    largestBelow_millionths h0 hk
  rw [roundUp_of_lt h0 hfit, Nat.min_eq_right (by omega), Nat.sub_self, Nat.pow_zero, Nat.div_one,
    ← hlargest]
  exact ⟨fun ⟨r, hr, hlargest⟩ => Option.some.inj hr ▸ hlargest, fun h => ⟨_, rfl, h⟩⟩

/-- Where it wraps to the point, the integer is read. -/
theorem roundUp_integer_iff (h0 : 0 ≤ x) (hk : ¬ k ≤ 6) (hwrap : k + 1 = 2 ^ 64)
    (hpoint : point tie x < 2 ^ 64) :
    (∃ r, roundUp tie x k = some r ∧ LargestBelow k x r) ↔ x - ⌊x⌋₊ < 1 / 10 ^ k := by
  have hat : FixedPoint.pointOf 6 false (millionths tie x) = point tie x := Nat.zero_add _
  have hread := FixedPoint.read_take_point 6 false (millionths tie x)
  have hlargest : LargestBelow k x ((millionths tie x / 10 ^ 6 : ℕ) : ℚ) ↔ _ :=
    largestBelow_integer h0 hk
  rw [hat] at hread
  rw [roundUp_eq h0, toString_eq h0, if_neg (by omega), hwrap, Nat.mod_self, Nat.add_zero,
    Nat.mod_eq_of_lt hpoint, hread, FixedPoint.signed, if_neg Bool.false_ne_true,
    ← hlargest]
  refine ⟨?_, fun h => ⟨_, rfl, h⟩⟩
  rintro ⟨r, hr, hlargest⟩
  exact Option.some.inj hr ▸ hlargest

/-- **The rounding is the largest multiple below** exactly for the numbers whose text is cut down.
-/
theorem roundUp_iff {e : ℕ} (h0 : 0 ≤ x) (hx : x < 2 ^ e) (he : e < 2 ^ 32) (hk : k < 2 ^ 64) :
    (∃ r, roundUp tie x k = some r ∧ LargestBelow k x r) ↔ CutsDown tie k x := by
  have hpoint : point tie x ≤ e + 1 := point_le h0 hx
  by_cases hsix : k ≤ 6
  · rw [roundUp_of_lt h0 (by omega), Nat.min_eq_left hsix, ← div_eq_iff_cutsDown h0 hsix,
      ← largestBelow_natCast h0]
    exact ⟨fun ⟨r, hr, hlargest⟩ => Option.some.inj hr ▸ hlargest, fun h => ⟨_, rfl, h⟩⟩
  have hsame : x - ⌊x * 10 ^ 6⌋₊ / 10 ^ 6 < 1 / 10 ^ k → point tie x = (decimal ⌊x⌋₊).length :=
    fun h => point_of_not_roundsUp h0 (not_roundsUp_of_lt hsix h)
  rw [CutsDown, if_neg hsix]
  by_cases hfit : point tie x + k + 1 < 2 ^ 64
  · rw [roundUp_whole_iff h0 hsix hfit]
    split_ifs with hlength
    · exact Iff.rfl
    · exact iff_of_false (fun h => hlength (by rwa [← hsame h])) (by omega)
  by_cases hwrap : k + 1 = 2 ^ 64
  · rw [roundUp_integer_iff h0 hsix hwrap (by omega), if_neg (by omega)]
    exact (and_iff_right hwrap).symm
  · refine iff_of_false ?_ ?_
    · rintro ⟨r, hr, hlargest⟩
      rw [roundUp_eq h0, if_neg (by omega), Nat.mod_eq_of_lt (show k + 1 < 2 ^ 64 by omega)] at hr
      exact not_largestBelow_front h0 (by omega) hr hlargest
    · split_ifs with hlength
      · exact fun h => hfit (by rwa [hsame h])
      · exact fun h => hwrap h.1

/-- **The strategies' arithmetic is this text**, where the position does not wrap. -/
theorem roundUp_even (h0 : 0 ≤ x) (hfit : point .even x + k + 1 < 2 ^ 64) :
    roundUp .even x k =
      some (Instrument.roundStringNumber (Instrument.toStringMillionths x) k) := by
  have hround : Grid.roundHalfEven (x * 10 ^ 6) = (millionths .even x : ℤ) := by
    have hcases : 0 ≤ Tie.even.round (x * 10 ^ 6) := round_nonneg (by positivity)
    exact (Int.toNat_of_nonneg hcases).symm
  rw [roundUp_of_lt h0 hfit, Instrument.roundStringNumber, Instrument.toStringMillionths, hround,
    Int.tdiv_eq_ediv_of_nonneg (Int.natCast_nonneg _)]
  rfl

theorem getRoundUpQuantity_even {i : Instrument} (h0 : 0 ≤ x)
    (hfit : point .even x + i.lotSize + 1 < 2 ^ 64) :
    getRoundUpQuantity .even i x = some (i.getRoundUpQuantity x) := roundUp_even h0 hfit

theorem getRoundUpPrice_even {i : Instrument} (h0 : 0 ≤ x)
    (hfit : point .even x + i.tickSize + 1 < 2 ^ 64) :
    getRoundUpPrice .even i x = some (i.getRoundUpPrice x) := roundUp_even h0 hfit

/-- `get_rounded_number`: without a `'1'` the position is `-1`. -/
def getRoundedNumber (lotSize : List UInt8) : ℕ :=
  match lotSize.findIdx? (· = 49) with
  | none => 2 ^ 64 - 2
  | some 0 => 0
  | some (pos + 1) => pos

/-- A step of one half: a digit in front of the point is cut off. -/
example : roundUp .even (1234 + 1 / 2) (getRoundedNumber (text "0.50000000")) = some 123 := by
  decide +kernel

/-- **The quantity and the price of an order** are rounded down to the steps of its instrument
exactly if their texts are cut down. -/
theorem largestBelow_iff (tie : Tie) (i : Instrument) (hlot : i.lotSize < 2 ^ 64)
    (htick : i.tickSize < 2 ^ 64) (h0 : 0 ≤ x) (hx : x < 2 ^ 1024) :
    ((∃ r, getRoundUpQuantity tie i x = some r ∧ LargestBelow i.lotSize x r) ↔
      CutsDown tie i.lotSize x) ∧
    ((∃ r, getRoundUpPrice tie i x = some r ∧ LargestBelow i.tickSize x r) ↔
      CutsDown tie i.tickSize x) :=
  ⟨roundUp_iff h0 hx (by decide) hlot, roundUp_iff h0 hx (by decide) htick⟩

/-- Three decimals of a quantity, eight of a price. -/
def altcoin : Instrument := .create .binance .spot "ALT-USDT" "ALTUSDT" 3 8

theorem largestBelow_altcoin :
    ((∃ r, getRoundUpQuantity .even altcoin (5 / 4) = some r ∧ LargestBelow 3 (5 / 4) r) ↔
      CutsDown .even 3 (5 / 4)) ∧
    ((∃ r, getRoundUpPrice .even altcoin (5 / 4) = some r ∧ LargestBelow 8 (5 / 4) r) ↔
      CutsDown .even 8 (5 / 4)) :=
  largestBelow_iff .even altcoin (by decide) (by decide) (by norm_num)
    (lt_of_lt_of_le (by norm_num : (5 / 4 : ℚ) < 2 ^ 1)
      (pow_le_pow_right₀ (by norm_num) (by norm_num)))

/-- **The rounded order exceeds the requested amount**: `0.9999996` of three decimals is `1`, and
`0.12345678` of eight is `0.123457`. -/
theorem altcoin_rounded_above :
    getRoundUpQuantity .even altcoin (9999996 / 10000000) = some 1 ∧
    getRoundUpQuantity .away altcoin (9999996 / 10000000) = some 1 ∧
    ¬ LargestBelow 3 (9999996 / 10000000) 1 ∧
    getRoundUpPrice .even altcoin (12345678 / 100000000) = some (123457 / 1000000) ∧
    getRoundUpPrice .away altcoin (12345678 / 100000000) = some (123457 / 1000000) ∧
    ¬ LargestBelow 8 (12345678 / 100000000) (123457 / 1000000) := by
  refine ⟨by decide +kernel, by decide +kernel, fun h => ?_, by decide +kernel, by decide +kernel,
    fun h => ?_⟩
  · exact absurd h.2.1 (by norm_num)
  · exact absurd h.2.1 (by norm_num)

end InstrumentText

end TradingEngine
