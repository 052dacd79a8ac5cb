import TradingEngine.Machinery.Ascii
import Mathlib.Data.Rat.Defs
import Mathlib.Tactic.FieldSimp

/-!
# Machinery/FixedPoint — decimal texts with a fixed number of places

`write places neg n` is the text of `n / 10 ^ places`, with all places written.  `read` takes a
decimal text back.

* `read_write_append` — a text stands for the number it was written for, whatever comes behind.
* `read_take` — a text that is cut behind its point, or behind some of its places, stands for the
  number cut there towards zero (`read_take_point`, `read_take_front`).
-/

namespace FixedPoint

open Ascii

variable {places j n : ℕ} {negative : Bool}

/-- The last digits of a number, as many as there are places. -/
def lastDigits : ℕ → ℕ → List ℕ
  | 0, _ => []
  | places + 1, n => lastDigits places (n / 10) ++ [n % 10]

@[simp] theorem length_lastDigits (places n : ℕ) : (lastDigits places n).length = places := by
  induction places generalizing n with
  | zero => rfl
  | succ places ih => rw [lastDigits, List.length_append, ih, List.length_singleton]

theorem lt_of_mem_lastDigits {d : ℕ} (h : d ∈ lastDigits places n) : d < 10 := by
  induction places generalizing n with
  | zero => exact absurd h List.not_mem_nil
  | succ places ih =>
    rcases List.mem_append.mp h with h | h
    · exact ih h
    · rw [List.mem_singleton.mp h]
      exact Nat.mod_lt n (by decide)

/-- **Digits behind a number** count it up by their places. -/
theorem value_append_lastDigits (ds : List ℕ) (places n : ℕ) :
    value 10 (ds ++ lastDigits places n) = value 10 ds * 10 ^ places + n % 10 ^ places := by
  induction places generalizing n with
  | zero => simp [lastDigits, Nat.mod_one]
  | succ places ih =>
    have hlast : value 10 (ds ++ lastDigits (places + 1) n) =
        value 10 (ds ++ lastDigits places (n / 10)) * 10 + n % 10 := by
      rw [lastDigits, ← List.append_assoc, value, List.foldl_append]
      rfl
    have hmod : n % (10 * 10 ^ places) = n % 10 + 10 * (n / 10 % 10 ^ places) := Nat.mod_mul
    rw [hlast, ih, Nat.pow_succ, Nat.mul_comm (10 ^ places) 10, hmod]
    ring

/-- **The first of the last digits** are the last digits of the number without the others. -/
theorem take_lastDigits (h : j ≤ places) :
    (lastDigits places n).take j = lastDigits j (n / 10 ^ (places - j)) := by
  induction places generalizing n with
  | zero =>
    obtain rfl := Nat.le_zero.mp h
    rfl
  | succ places ih =>
    by_cases hj : j = places + 1
    · subst hj
      rw [Nat.sub_self, Nat.pow_zero, Nat.div_one,
        List.take_of_length_le (length_lastDigits _ n).le]
    · have hle : j ≤ places := by omega
      rw [lastDigits, List.take_append_of_le_length (by rwa [length_lastDigits]), ih hle,
        Nat.div_div_eq_div_mul, ← Nat.pow_succ', Nat.succ_sub hle]

/-- **The front of a numeral** stands for a tenth of it at most. -/
theorem value_take_le {ds : List ℕ} {t : ℕ} (h : t < ds.length) :
    value 10 (ds.take t) * 10 ≤ value 10 ds := by
  have hsplit (a b : List ℕ) : value 10 (a ++ b) = value 10 a * 10 ^ b.length + value 10 b := by
    induction b using List.reverseRecOn with
    | nil => simp [value]
    | append_singleton b d ih =>
      have hlast (l : List ℕ) : value 10 (l ++ [d]) = value 10 l * 10 + d := by
        rw [value, List.foldl_append]
        rfl
      rw [← List.append_assoc, hlast, ih, hlast, List.length_append, List.length_singleton,
        Nat.pow_succ]
      ring
  have hdrop : 0 < (ds.drop t).length := by
    rw [List.length_drop]
    omega
  calc value 10 (ds.take t) * 10 ≤ value 10 (ds.take t) * 10 ^ (ds.drop t).length :=
        Nat.mul_le_mul_left _ (Nat.le_self_pow hdrop.ne' 10)
    _ ≤ value 10 (ds.take t ++ ds.drop t) := by
        rw [hsplit]
        exact Nat.le_add_right _ _
    _ = value 10 ds := by rw [List.take_append_drop]

/-- The text of `n / 10 ^ places`. -/
def write (places : ℕ) (negative : Bool) (n : ℕ) : List UInt8 :=
  (if negative then [minus] else []) ++ decimal (n / 10 ^ places) ++
    dot :: (lastDigits places n).map digitByte

/-- Where the point of the text stands. -/
def pointOf (places : ℕ) (negative : Bool) (n : ℕ) : ℕ :=
  (if negative then 1 else 0) + (decimal (n / 10 ^ places)).length

/-- The number a decimal text stands for, `none` if there is no digit in it. -/
def read (s : List UInt8) : Option ℚ :=
  let negative := s.head? = some minus
  let s := if negative then s.tail else s
  let rest := s.dropWhile isDigit
  let fraction := if rest.head? = some dot then rest.tail.takeWhile isDigit else []
  let digits := s.takeWhile isDigit ++ fraction
  if digits = [] then none
  else
    let x : ℚ := ofDecimal digits / 10 ^ fraction.length
    some (if negative then -x else x)

/-- The value with its sign. -/
def signed (negative : Bool) (x : ℚ) : ℚ := if negative then -x else x

theorem isDigit_of_mem_lastDigits {c : UInt8} (h : c ∈ (lastDigits places n).map digitByte) :
    isDigit c = true := by
  obtain ⟨d, hd, rfl⟩ := List.mem_map.mp h
  exact isDigit_digitByte (lt_of_mem_lastDigits hd)

theorem takeWhile_lastDigits (places n : ℕ) :
    ((lastDigits places n).map digitByte).takeWhile isDigit =
      (lastDigits places n).map digitByte := by
  have hspan := span_append (s := (lastDigits places n).map digitByte) (t := [])
    (fun _ hc => isDigit_of_mem_lastDigits hc) nofun
  rw [List.append_nil] at hspan
  exact hspan.1

theorem ofDecimal_append_lastDigits (a places n : ℕ) :
    ofDecimal (decimal a ++ (lastDigits places n).map digitByte) =
      a * 10 ^ places + n % 10 ^ places := by
  have hmap : ((lastDigits places n).map digitByte).map digitOf = lastDigits places n := by
    rw [List.map_map]
    refine (List.map_congr_left fun d hd => ?_).trans (List.map_id _)
    exact digitOf_digitByte (lt_of_mem_lastDigits hd)
  have hvalue : value 10 ((decimal a).map digitOf) = a := ofDecimal_decimal a
  rw [ofDecimal, List.map_append, hmap, value_append_lastDigits, hvalue]

/-- A numeral does not start with a sign. -/
theorem head_decimal_append (a : ℕ) (t : List UInt8) : (decimal a ++ t).head? ≠ some minus := by
  obtain ⟨c, s, hs⟩ := List.exists_cons_of_ne_nil (decimal_ne_nil a)
  have hdigit : isDigit c = true := isDigit_of_mem_decimal (hs ▸ List.mem_cons_self)
  rw [hs, List.cons_append, List.head?_cons, Ne, Option.some.injEq]
  rintro rfl
  exact absurd hdigit (by decide)

/-- **What is read of a sign, digits and what follows them.** -/
theorem read_signed (negative : Bool) (a : ℕ) (t : List UInt8)
    (ht : ∀ c ∈ t.head?, isDigit c = false) :
    read ((if negative then [minus] else []) ++ decimal a ++ t) =
      some (signed negative
        (let fraction := if t.head? = some dot then t.tail.takeWhile isDigit else []
        (ofDecimal (decimal a ++ fraction) : ℚ) / 10 ^ fraction.length)) := by
  have hspan := span_append (fun c hc => isDigit_of_mem_decimal (n := a) hc) ht
  have hne : ∀ u, decimal a ++ u ≠ [] := fun u h =>
    decimal_ne_nil a (List.append_eq_nil_iff.mp h).1
  cases negative
  · have hhead := head_decimal_append a t
    simp only [read, Bool.false_eq_true, if_false, List.nil_append, hhead, hspan.1, hspan.2, hne,
      signed]
  · have htail : ([minus] ++ decimal a ++ t).tail = decimal a ++ t := rfl
    have hhead : ([minus] ++ decimal a ++ t).head? = some minus := rfl
    simp only [read, if_true, hhead, htail, hspan.1, hspan.2, hne, if_false, signed]

/-- **A text cut in front of its point** reads as a tenth of the number at most, if it reads at all.
-/
theorem read_take_front {t : ℕ} {r : ℚ} (h : t < pointOf places false n)
    (hread : read ((write places false n).take t) = some r) :
    0 < t ∧ r * 10 ≤ (n / 10 ^ places : ℕ) := by
  have hpoint : pointOf places false n = (decimal (n / 10 ^ places)).length := Nat.zero_add _
  have htake : (write places false n).take t = (decimal (n / 10 ^ places)).take t := by
    have hle : t ≤ (decimal (n / 10 ^ places)).length := by omega
    exact List.take_append_of_le_length hle
  have hdigit : ∀ c ∈ (decimal (n / 10 ^ places)).take t, isDigit c = true := fun c hc =>
    isDigit_of_mem_decimal (List.mem_of_mem_take hc)
  have hspan := span_append (t := []) hdigit nofun
  rw [List.append_nil] at hspan
  have hhead : ((decimal (n / 10 ^ places)).take t).head? ≠ some minus := fun hhead =>
    absurd (hdigit minus (List.mem_of_mem_head? hhead)) (by decide)
  rw [htake] at hread
  simp only [read, hhead, if_false, hspan.1, hspan.2, List.head?_nil, reduceCtorEq,
    List.append_nil, List.length_nil, div_one, pow_zero] at hread
  split_ifs at hread with hnil
  cases hread
  refine ⟨Nat.pos_of_ne_zero fun h0 => hnil (by rw [h0, List.take_zero]), ?_⟩
  have hvalue : value 10 ((decimal (n / 10 ^ places)).map digitOf) = n / 10 ^ places :=
    ofDecimal_decimal _
  have hlt : t < ((decimal (n / 10 ^ places)).map digitOf).length := by
    rw [List.length_map]
    omega
  have hle := value_take_le hlt
  rw [← List.map_take, hvalue] at hle
  exact_mod_cast hle

/-- A text cut behind the point reads as an integer. -/
theorem read_take_point (places : ℕ) (negative : Bool) (n : ℕ) :
    read ((write places negative n).take (pointOf places negative n)) =
      some (signed negative (n / 10 ^ places : ℕ)) := by
  have hlen : pointOf places negative n =
      ((if negative then [minus] else []) ++ decimal (n / 10 ^ places)).length := by
    rw [pointOf, List.length_append]
    cases negative <;> rfl
  have hread := read_signed negative (n / 10 ^ places) [] nofun
  rw [List.append_nil] at hread
  rw [write, hlen, List.take_left, hread]
  simp [ofDecimal_decimal]

/-- **A text cut behind some of its places** stands for the number cut there towards zero. -/
theorem read_take (negative : Bool) (h : j ≤ places) :
    read ((write places negative n).take (pointOf places negative n + 1 + j)) =
      some (signed negative ((n / 10 ^ (places - j) : ℕ) / 10 ^ j)) := by
  have hlen : pointOf places negative n =
      ((if negative then [minus] else []) ++ decimal (n / 10 ^ places)).length := by
    rw [pointOf, List.length_append]
    cases negative <;> rfl
  have htake : (write places negative n).take (pointOf places negative n + 1 + j) =
      (if negative then [minus] else []) ++ decimal (n / 10 ^ places) ++
        dot :: (lastDigits j (n / 10 ^ (places - j))).map digitByte := by
    rw [write, hlen, Nat.add_assoc, List.take_length_add_append, Nat.add_comm 1 j,
      List.take_succ_cons, ← List.map_take, take_lastDigits h]
  have hsplit : n / 10 ^ places * 10 ^ j + n / 10 ^ (places - j) % 10 ^ j =
      n / 10 ^ (places - j) := by
    have hpow : 10 ^ places = 10 ^ (places - j) * 10 ^ j := by
      rw [← Nat.pow_add, Nat.sub_add_cancel h]
    rw [hpow, ← Nat.div_div_eq_div_mul, Nat.div_add_mod']
  rw [htake, read_signed negative _ _ (by rintro _ ⟨⟩; rfl)]
  simp only [List.head?_cons, if_true, List.tail_cons, takeWhile_lastDigits,
    ofDecimal_append_lastDigits, List.length_map, length_lastDigits, hsplit]

/-- **What stands behind a text** is not read with it. -/
theorem read_write_append (places : ℕ) (negative : Bool) (n : ℕ) {t : List UInt8}
    (ht : ∀ c ∈ t.head?, isDigit c = false) :
    read (write places negative n ++ t) = some (signed negative (n / 10 ^ places)) := by
  have hspan := span_append (s := (lastDigits places n).map digitByte)
    (fun _ hc => isDigit_of_mem_lastDigits hc) ht
  rw [write, List.append_assoc, List.cons_append, read_signed negative _ _ (by rintro _ ⟨⟩; rfl)]
  simp only [List.head?_cons, if_true, List.tail_cons, hspan.1, ofDecimal_append_lastDigits,
    List.length_map, length_lastDigits, Nat.div_add_mod']

/-- A text is made of digits, a point and perhaps a sign. -/
theorem mem_write {c : UInt8} (h : c ∈ write places negative n) :
    isDigit c = true ∨ c = dot ∨ c = minus := by
  rw [write, List.mem_append, List.mem_append, List.mem_cons] at h
  rcases h with (h | h) | h | h
  · cases negative
    · exact absurd h List.not_mem_nil
    · exact .inr (.inr (List.mem_singleton.mp h))
  · exact .inl (isDigit_of_mem_decimal h)
  · exact .inr (.inl h)
  · exact .inl (isDigit_of_mem_lastDigits h)

/-- **The first point of a text is the one it was written with.** -/
theorem findIdx_dot (places : ℕ) (negative : Bool) (n : ℕ) :
    (write places negative n).findIdx? (· = dot) = some (pointOf places negative n) := by
  have hfront : ((if negative then [minus] else []) ++ decimal (n / 10 ^ places)).findIdx?
      (· = dot) = none := by
    refine List.findIdx?_eq_none_iff.mpr fun c hc => decide_eq_false ?_
    rintro rfl
    rcases List.mem_append.mp hc with hc | hc
    · cases negative
      · exact absurd hc List.not_mem_nil
      · exact absurd (List.mem_singleton.mp hc) (by decide)
    · exact absurd (isDigit_of_mem_decimal hc) (by decide)
  rw [write, List.findIdx?_append, hfront, List.findIdx?_cons, if_pos (decide_eq_true rfl),
    List.length_append, pointOf]
  cases negative <;> simp

end FixedPoint
