import Mathlib.Order.Bounds.Basic
import Mathlib.Tactic.Set

/-!
# Machinery/Bitmap — a set of naturals in machine words

`n` words of `w` bits hold a set of naturals: bit `i % w` of word `i / w` stands for `i`.  `setBit`
and `clearBit` write one element; `scanDown` and `scanUp` find the greatest and the least element by
skipping empty words and counting the leading or trailing zeros of the first nonempty one.

The scans carry the bound `limit` that a caller's array has.  They only look at one bit of each
word, so they are exact (`scanDown_spec`, `scanUp_spec`) when no element reaches `limit`.
-/

namespace Bitmap

variable {w n : ℕ}

/-- The `k`-th word, empty past the end. -/
def word (words : Vector (BitVec w) n) (k : ℕ) : BitVec w := words[k]?.getD 0#w

/-- Membership: bit `i % w` of word `i / w`. -/
def test (words : Vector (BitVec w) n) (i : ℕ) : Bool := (word words (i / w)).getLsbD (i % w)

/-- Write the `k`-th word. -/
def putWord (words : Vector (BitVec w) n) (k : ℕ) (x : BitVec w) : Vector (BitVec w) n :=
  words.setIfInBounds k x

/-- Add `i`. -/
def setBit (words : Vector (BitVec w) n) (i : ℕ) : Vector (BitVec w) n :=
  putWord words (i / w) (word words (i / w) ||| (1#w <<< (i % w)))

/-- Remove `i`. -/
def clearBit (words : Vector (BitVec w) n) (i : ℕ) : Vector (BitVec w) n :=
  putWord words (i / w) (word words (i / w) &&& ~~~(1#w <<< (i % w)))

/-- The empty set. -/
def empty (w n : ℕ) : Vector (BitVec w) n := Vector.replicate n 0#w

/-! ## Reading back a write -/

theorem word_putWord (words : Vector (BitVec w) n) {k : ℕ} (hk : k < n) (x : BitVec w) (j : ℕ) :
    word (putWord words k x) j = if k = j then x else word words j := by
  by_cases h : k = j
  · subst h
    simp [word, putWord, hk]
  · simp [word, putWord, h]

theorem word_eq_zero_of_le (words : Vector (BitVec w) n) {k : ℕ} (hk : n ≤ k) :
    word words k = 0#w := by simp [word, hk]

theorem eq_of_div_mod_eq {i j : ℕ} (hd : i / w = j / w) (hm : i % w = j % w) : i = j := by
  rw [← Nat.div_add_mod i w, ← Nat.div_add_mod j w, hd, hm]

theorem getLsbD_one_shiftLeft (hw : 0 < w) (i j : ℕ) :
    (1#w <<< (i % w)).getLsbD (j % w) = decide (i % w = j % w) := by
  rw [← BitVec.twoPow_eq, BitVec.getLsbD_twoPow]
  simp [Nat.mod_lt i hw]

/-- **`setBit` adds exactly one element.** -/
theorem test_setBit (hw : 0 < w) (words : Vector (BitVec w) n) {i : ℕ} (hi : i / w < n) (j : ℕ) :
    test (setBit words i) j = true ↔ j = i ∨ test words j = true := by
  rw [test, setBit, word_putWord words hi]
  by_cases hd : i / w = j / w
  · rw [if_pos hd, BitVec.getLsbD_or, getLsbD_one_shiftLeft hw, hd, ← test]
    by_cases hm : i % w = j % w
    · simp [eq_of_div_mod_eq hd hm]
    · have hne : j ≠ i := fun h => hm (by rw [h])
      simp [hm, hne]
  · have hne : j ≠ i := fun h => hd (by rw [h])
    rw [if_neg hd, ← test]
    simp [hne]

/-- **`clearBit` removes exactly one element.** -/
theorem test_clearBit (hw : 0 < w) (words : Vector (BitVec w) n) {i : ℕ} (hi : i / w < n) (j : ℕ) :
    test (clearBit words i) j = true ↔ j ≠ i ∧ test words j = true := by
  rw [test, clearBit, word_putWord words hi]
  by_cases hd : i / w = j / w
  · rw [if_pos hd, BitVec.getLsbD_and, BitVec.getLsbD_not, getLsbD_one_shiftLeft hw, hd, ← test]
    by_cases hm : i % w = j % w
    · simp [eq_of_div_mod_eq hd hm]
    · have hne : j ≠ i := fun h => hm (by rw [h])
      simp [hm, hne, Nat.mod_lt j hw]
  · have hne : j ≠ i := fun h => hd (by rw [h])
    rw [if_neg hd, ← test]
    simp [hne]

@[simp] theorem test_empty (i : ℕ) : test (empty w n) i = false := by
  by_cases h : i / w < n
  · simp [test, word, empty, h]
  · simp [test, word_eq_zero_of_le _ (Nat.le_of_not_lt h)]

theorem div_lt_of_test {words : Vector (BitVec w) n} {i : ℕ} (h : test words i = true) :
    i / w < n := by
  by_contra hn
  simp [test, word_eq_zero_of_le _ (Nat.le_of_not_lt hn)] at h

/-- An empty word holds no element. -/
theorem test_eq_false_of_word {words : Vector (BitVec w) n} {k i : ℕ} (hk : word words k = 0#w)
    (hi : i / w = k) : test words i = false := by
  rw [test, hi, hk, BitVec.getLsbD_zero]

/-- Bit `b < w` of word `k` stands for `k * w + b`. -/
theorem test_mul_add {b : ℕ} (hb : b < w) (words : Vector (BitVec w) n) (k : ℕ) :
    test words (k * w + b) = (word words k).getLsbD b := by
  have hw : 0 < w := Nat.zero_lt_of_lt hb
  rw [test, Nat.mul_comm k w, Nat.mul_add_div hw, Nat.mul_add_mod, Nat.div_eq_of_lt hb,
    Nat.mod_eq_of_lt hb, Nat.add_zero]

/-- **The words are what they hold.** -/
theorem eq_of_test {words words' : Vector (BitVec w) n} (h : ∀ i, test words i = test words' i) :
    words = words' := by
  refine Vector.ext fun k hk => BitVec.eq_of_getLsbD_eq fun b hb => ?_
  have htest := h (k * w + b)
  rw [test_mul_add hb, test_mul_add hb] at htest
  simpa [word, hk] using htest

/-! ## The highest and the lowest bit of a word -/

theorem getLsbD_lt {x : BitVec w} {b : ℕ} (h : x.getLsbD b = true) : b < w := by
  by_contra hb
  rw [BitVec.getLsbD_of_ge x b (Nat.le_of_not_lt hb)] at h
  exact Bool.false_ne_true h

/-- The bit below the leading zeros is the highest one set. -/
theorem isGreatest_clz {x : BitVec w} (hw : 0 < w) (hx : x ≠ 0#w) :
    IsGreatest {b | x.getLsbD b = true} (w - 1 - x.clz.toNat) := by
  refine ⟨BitVec.getLsbD_true_clz_of_ne_zero hw hx, fun b hb => ?_⟩
  by_contra hlt
  have hpow : 2 ^ b ≤ x.toNat := Nat.ge_two_pow_of_testBit hb
  have hle : 2 ^ (w - x.clz.toNat) ≤ 2 ^ b := Nat.pow_le_pow_right Nat.two_pos (by omega)
  have := BitVec.toNat_lt_two_pow_sub_clz (x := x)
  omega

/-- The bit above the trailing zeros is the lowest one set. -/
theorem isLeast_ctz {x : BitVec w} (hx : x ≠ 0#w) :
    IsLeast {b | x.getLsbD b = true} x.ctz.toNat := by
  refine ⟨BitVec.getLsbD_true_ctz_of_ne_zero hx, fun b hb => ?_⟩
  by_contra hlt
  have hb' : x.getLsbD b = true := hb
  rw [BitVec.getLsbD_false_of_lt_ctz (Nat.lt_of_not_le hlt)] at hb'
  exact Bool.false_ne_true hb'

/-! ## The scans -/

/-- The greatest element in the words below `pos`, scanning down. -/
def scanDown (words : Vector (BitVec w) n) (limit : ℕ) : ℕ → Option ℕ
  | 0 => none
  | pos + 1 =>
    if word words pos = 0#w then scanDown words limit pos
    else if pos * w + (w - 1 - (word words pos).clz.toNat) < limit then
      some (pos * w + (w - 1 - (word words pos).clz.toNat))
    else scanDown words limit pos

/-- The least element in the last `left` words, scanning up. -/
def scanUp (words : Vector (BitVec w) n) (limit : ℕ) : ℕ → Option ℕ
  | 0 => none
  | left + 1 =>
    let k := n - (left + 1)
    if word words k = 0#w then scanUp words limit left
    else if k * w + (word words k).ctz.toNat < limit then
      some (k * w + (word words k).ctz.toNat)
    else scanUp words limit left

variable {words : Vector (BitVec w) n} {limit : ℕ}

/-- **The downward scan finds the greatest element**, or reports that there is none. -/
theorem scanDown_spec (hw : 0 < w) (hlim : ∀ i, test words i = true → i < limit) (pos : ℕ) :
    (scanDown words limit pos = none ∧ ∀ i, i / w < pos → test words i = false) ∨
      ∃ i, scanDown words limit pos = some i ∧
        IsGreatest {j | test words j = true ∧ j / w < pos} i := by
  induction pos with
  | zero => exact Or.inl ⟨rfl, fun i hi => absurd hi (Nat.not_lt_zero _)⟩
  | succ pos ih =>
    rw [scanDown]
    by_cases h0 : word words pos = 0#w
    · -- an empty word: the elements below `pos + 1` are those below `pos`
      have hskip : ∀ i, i / w < pos + 1 → test words i = true → i / w < pos := by
        intro i hi ht
        rcases Nat.lt_succ_iff_lt_or_eq.mp hi with hlt | heq
        · exact hlt
        · exact absurd ht (by simp [test_eq_false_of_word h0 heq])
      rw [if_pos h0]
      rcases ih with ⟨hnone, hall⟩ | ⟨i, hsome, ⟨hti, hdi⟩, hub⟩
      · refine Or.inl ⟨hnone, fun i hi => ?_⟩
        by_contra ht
        have ht' : test words i = true := by simpa using ht
        exact ht (hall i (hskip i hi ht'))
      · exact Or.inr ⟨i, hsome, ⟨hti, Nat.lt_succ_of_lt hdi⟩,
          fun j hj => hub ⟨hj.1, hskip j hj.2 hj.1⟩⟩
    · set b := w - 1 - (word words pos).clz.toNat with hb
      have hbit : (word words pos).getLsbD b = true := (isGreatest_clz hw h0).1
      have hbw : b < w := getLsbD_lt hbit
      have htest : test words (pos * w + b) = true := by rw [test_mul_add hbw, hbit]
      rw [if_neg h0, if_pos (hlim _ htest)]
      refine Or.inr ⟨pos * w + b, rfl, ⟨htest, ?_⟩, ?_⟩
      · rw [Nat.mul_comm, Nat.mul_add_div hw, Nat.div_eq_of_lt hbw]
        omega
      · rintro j ⟨htj, hjd⟩
        have hjeq : j = j / w * w + j % w := (Nat.div_add_mod' j w).symm
        rcases Nat.lt_succ_iff_lt_or_eq.mp hjd with hlt | heq
        · have hmul : (j / w + 1) * w ≤ pos * w := Nat.mul_le_mul_right w hlt
          have hmod : j % w < w := Nat.mod_lt j hw
          rw [Nat.add_mul] at hmul
          omega
        · have hjb : (word words pos).getLsbD (j % w) = true := by rw [← heq]; exact htj
          have := (isGreatest_clz hw h0).2 hjb
          rw [hjeq, heq]
          omega

/-- **The upward scan finds the least element**, or reports that there is none. -/
theorem scanUp_spec (hw : 0 < w) (hlim : ∀ i, test words i = true → i < limit) (left : ℕ)
    (hleft : left ≤ n) :
    (scanUp words limit left = none ∧ ∀ i, n - left ≤ i / w → test words i = false) ∨
      ∃ i, scanUp words limit left = some i ∧
        IsLeast {j | test words j = true ∧ n - left ≤ j / w} i := by
  induction left with
  | zero =>
    refine Or.inl ⟨rfl, fun i hi => ?_⟩
    by_contra ht
    have := div_lt_of_test (by simpa using ht : test words i = true)
    omega
  | succ left ih =>
    rw [scanUp]
    set k := n - (left + 1) with hk
    have hkn : n - left = k + 1 := by omega
    rw [hkn] at ih
    by_cases h0 : word words k = 0#w
    · have hskip : ∀ i, k ≤ i / w → test words i = true → k + 1 ≤ i / w := by
        intro i hi ht
        rcases Nat.lt_or_eq_of_le hi with hlt | heq
        · exact hlt
        · exact absurd ht (by simp [test_eq_false_of_word h0 heq.symm])
      simp only [if_pos h0]
      rcases ih (by omega) with ⟨hnone, hall⟩ | ⟨i, hsome, ⟨hti, hdi⟩, hlb⟩
      · refine Or.inl ⟨hnone, fun i hi => ?_⟩
        by_contra ht
        have ht' : test words i = true := by simpa using ht
        exact ht (hall i (hskip i hi ht'))
      · exact Or.inr ⟨i, hsome, ⟨hti, by omega⟩, fun j hj => hlb ⟨hj.1, hskip j hj.2 hj.1⟩⟩
    · set b := (word words k).ctz.toNat with hb
      have hbit : (word words k).getLsbD b = true := (isLeast_ctz h0).1
      have hbw : b < w := getLsbD_lt hbit
      have htest : test words (k * w + b) = true := by rw [test_mul_add hbw, hbit]
      simp only [if_neg h0, if_pos (hlim _ htest)]
      refine Or.inr ⟨k * w + b, rfl, ⟨htest, ?_⟩, ?_⟩
      · rw [Nat.mul_comm, Nat.mul_add_div hw, Nat.div_eq_of_lt hbw]
        omega
      · rintro j ⟨htj, hjd⟩
        have hjeq : j = j / w * w + j % w := (Nat.div_add_mod' j w).symm
        rcases Nat.lt_or_eq_of_le hjd with hlt | heq
        · have hmul : (k + 1) * w ≤ j / w * w := Nat.mul_le_mul_right w hlt
          rw [Nat.add_mul] at hmul
          omega
        · have hjb : (word words k).getLsbD (j % w) = true := by rw [heq]; exact htj
          have := (isLeast_ctz h0).2 hjb
          rw [hjeq, ← heq]
          omega

end Bitmap
