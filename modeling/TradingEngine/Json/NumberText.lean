import TradingEngine.Json.RoundTrip
import TradingEngine.Machinery.Binary64

/-!
# Json/NumberText — a number as it is written, and what is read of it

A number is a sign, digits, and perhaps a fraction and an exponent.  `numberSpan` takes all of it
or, where the exponent is not written with `e-`, the number in front of the exponent; in either case
the span is the text of a number (`scanned`), and what is not taken holds no delimiter.

* `parseValueNumber_text` — what is read of a number.
* `means_iff` — the numbers that are read as they are written.
-/

namespace TradingEngine

open Ascii Json

/-! ## `std::from_chars` on a `double` -/

/-- The exponent at the front of a text; no exponent is zero. -/
def exponentFromChars (s : List UInt8) : ℤ :=
  match s with
  | [] => 0
  | c :: s =>
    if c = 101 ∨ c = 69 then
      if s.head? = some minus then -(ofDecimal (s.tail.takeWhile isDigit) : ℤ)
      else if s.head? = some 43 then ofDecimal (s.tail.takeWhile isDigit)
      else ofDecimal (s.takeWhile isDigit)
    else 0

/-- `std::from_chars` on a `double`: the longest numeral at the front, correctly rounded.  The scan
never gives it a name such as `inf`. -/
def doubleFromChars (s : List UInt8) : Option ℚ :=
  let negative := s.head? = some minus
  let s := if negative then s.tail else s
  let rest := s.dropWhile isDigit
  let fraction := if rest.head? = some dot then rest.tail.takeWhile isDigit else []
  let rest := if rest.head? = some dot then rest.tail.dropWhile isDigit else rest
  let digits := s.takeWhile isDigit ++ fraction
  if digits = [] then none
  else
    let x : ℚ := ofDecimal digits / 10 ^ fraction.length
    Binary64.round ((if negative then -x else x) * 10 ^ exponentFromChars rest)

/-- The value of a JSON number. -/
def Json.number : Json → Option ℚ
  | .int n => some n
  | .double q => some q
  | _ => none

namespace JsonText

/-! ## The grammar of a number -/

/-- One digit or more. -/
structure Digits where
  chars : List UInt8
  ne_nil : chars ≠ []
  isDigit : ∀ c ∈ chars, isDigit c = true

theorem Digits.head_ne (d : Digits) {c : UInt8} (h : Ascii.isDigit c = false) (t : List UInt8) :
    (d.chars ++ t).head? ≠ some c := by
  obtain ⟨c', s, hs⟩ := List.exists_cons_of_ne_nil d.ne_nil
  have hdigit := d.isDigit c' (hs ▸ List.mem_cons_self)
  rw [hs, List.cons_append, List.head?_cons, Ne, Option.some.injEq]
  rintro rfl
  exact Bool.false_ne_true (h.symm.trans hdigit)

/-- How the sign of an exponent is written. -/
inductive ExponentSign
  | none
  | plus
  | minus

/-- An exponent: `e` or `E`, a sign, digits. -/
structure Exponent where
  capital : Bool
  sign : ExponentSign
  digits : Digits

/-- A number; the digits in front of the fraction have no leading zero. -/
structure Number where
  negative : Bool
  digits : Digits
  noLeadingZero : digits.chars.head? = some 48 → digits.chars.length = 1
  fraction : Option Digits
  exponent : Option Exponent

def ExponentSign.text : ExponentSign → List UInt8
  | .none => []
  | .plus => [43]
  | .minus => [Ascii.minus]

def Exponent.text (e : Exponent) : List UInt8 :=
  (if e.capital then 69 else 101) :: (e.sign.text ++ e.digits.chars)

def Exponent.value (e : Exponent) : ℤ :=
  match e.sign with
  | .minus => -(ofDecimal e.digits.chars : ℤ)
  | _ => ofDecimal e.digits.chars

namespace Number

/-- The digits of the fraction. -/
def fractionDigits (n : Number) : List UInt8 := (n.fraction.map Digits.chars).getD []

/-- The dot and the digits of the fraction. -/
def fractionText (n : Number) : List UInt8 :=
  (n.fraction.map fun d => dot :: d.chars).getD []

def exponentText (n : Number) : List UInt8 := (n.exponent.map Exponent.text).getD []

def text (n : Number) : List UInt8 :=
  (if n.negative then [minus] else []) ++ (n.digits.chars ++ (n.fractionText ++ n.exponentText))

/-- The power of ten the exponent stands for. -/
def power (n : Number) : ℤ := (n.exponent.map Exponent.value).getD 0

/-- What stands in front of the exponent. -/
def mantissa (n : Number) : ℚ :=
  let x : ℚ := ofDecimal (n.digits.chars ++ n.fractionDigits) / 10 ^ n.fractionDigits.length
  if n.negative then -x else x

/-- The number that is written. -/
def value (n : Number) : ℚ := n.mantissa * 10 ^ n.power

/-- A number without a fraction and an exponent is an integer. -/
def IsInteger (n : Number) : Prop := n.fraction = none ∧ n.exponent = none

/-- The digits in front of the fraction, and the sign. -/
def integer (n : Number) : ℤ :=
  if n.negative then -(ofDecimal n.digits.chars : ℤ) else ofDecimal n.digits.chars

/-! ## What the scan takes -/

/-- The exponent is written with `e-`. -/
def lowerMinus (n : Number) : Bool :=
  match n.exponent with
  | some ⟨false, .minus, _⟩ => true
  | _ => false

/-- The number in front of the exponent. -/
def withoutExponent (n : Number) : Number := { n with exponent := none }

/-- The number the span is the text of. -/
def scanned (n : Number) : Number := if n.lowerMinus then n else n.withoutExponent

/-- What the span leaves of the text. -/
def unscanned (n : Number) : List UInt8 := if n.lowerMinus then [] else n.exponentText

/-- **What `parse_value_number` reads**: the digits in front of an exponent if there is no dot, the
rounded value of the span if there is one. -/
def read (n : Number) : Option Json :=
  match n.fraction with
  | none => if IsInt64 n.integer then some (.int n.integer) else none
  | some _ => (Binary64.round n.scanned.value).map .double

variable {n : Number} {c : UInt8}

/-! ### The characters -/

theorem isNumber_of_isDigit (h : isDigit c = true) : JsonParse.isNumber c = true := by
  simp [JsonParse.isNumber, h]

/-- The characters in front of the exponent. -/
def front (n : Number) : List UInt8 :=
  (if n.negative then [minus] else []) ++ (n.digits.chars ++ n.fractionText)

theorem text_eq_front (n : Number) : n.text = n.front ++ n.exponentText := by
  rw [text, front, List.append_assoc, List.append_assoc]

theorem mem_front (h : c ∈ n.front) : JsonParse.isNumber c = true ∨ c = dot := by
  rw [front, List.mem_append, List.mem_append] at h
  rcases h with h | h | h
  · split_ifs at h with hneg
    · rw [List.mem_singleton.mp h]
      exact Or.inl rfl
    · exact absurd h List.not_mem_nil
  · exact Or.inl (isNumber_of_isDigit (n.digits.isDigit c h))
  · rw [fractionText] at h
    cases hfraction : n.fraction with
    | none =>
      rw [hfraction] at h
      exact absurd h List.not_mem_nil
    | some d =>
      rw [hfraction] at h
      rcases List.mem_cons.mp h with h | h
      · exact Or.inr h
      · exact Or.inl (isNumber_of_isDigit (d.isDigit c h))

/-- No text behind the digits starts with a digit. -/
theorem head_exponentText (h : c ∈ n.exponentText.head?) : isDigit c = false ∧ c ≠ dot := by
  rw [exponentText] at h
  cases hexponent : n.exponent with
  | none =>
    rw [hexponent] at h
    cases h
  | some e =>
    rw [hexponent] at h
    cases hcapital : e.capital with
    | false =>
      simp only [Option.map_some, Option.getD_some, Exponent.text, hcapital] at h
      cases h
      decide
    | true =>
      simp only [Option.map_some, Option.getD_some, Exponent.text, hcapital] at h
      cases h
      decide

/-! ### `std::from_chars` on the text of a number -/

/-- The text behind the sign. -/
def body (n : Number) : List UInt8 := n.digits.chars ++ (n.fractionText ++ n.exponentText)

theorem head_text (n : Number) : n.text.head? = some minus ↔ n.negative = true := by
  rw [text]
  split_ifs with hneg
  · exact iff_of_true rfl hneg
  · exact iff_of_false (n.digits.head_ne rfl _) hneg

/-- The sign is read. -/
theorem tail_text (n : Number) : (if n.negative then n.text.tail else n.text) = n.body := by
  rw [text, body]
  split_ifs <;> rfl

theorem head_fractionText (h : c ∈ (n.fractionText ++ n.exponentText).head?) :
    isDigit c = false := by
  rw [fractionText] at h
  cases hfraction : n.fraction with
  | none =>
    rw [hfraction] at h
    exact (head_exponentText h).1
  | some d =>
    rw [hfraction] at h
    cases h
    rfl

theorem span_body (n : Number) : n.body.takeWhile isDigit = n.digits.chars ∧
    n.body.dropWhile isDigit = n.fractionText ++ n.exponentText :=
  span_append n.digits.isDigit fun _ hc => head_fractionText hc

theorem exponentFromChars_text (n : Number) : exponentFromChars n.exponentText = n.power := by
  rw [exponentText, power]
  cases n.exponent with
  | none => rfl
  | some e =>
    obtain ⟨capital, sign, ds⟩ := e
    have htake : ds.chars.takeWhile Ascii.isDigit = ds.chars := by
      rw [List.takeWhile_eq_self_iff]
      exact ds.isDigit
    have hminus := ds.head_ne (c := minus) rfl []
    have hplus := ds.head_ne (c := 43) rfl []
    rw [List.append_nil] at hminus hplus
    have hmark : (if capital then (69 : UInt8) else 101) = 101 ∨
        (if capital then (69 : UInt8) else 101) = 69 := by
      cases capital
      · exact Or.inl rfl
      · exact Or.inr rfl
    simp only [Option.map_some, Option.getD_some, Exponent.text, exponentFromChars, if_pos hmark]
    cases sign with
    | none => simp only [ExponentSign.text, List.nil_append, if_neg hminus, if_neg hplus, htake,
        Exponent.value]
    | plus => exact congrArg (fun s => (ofDecimal s : ℤ)) htake
    | minus => exact congrArg (fun s => -(ofDecimal s : ℤ)) htake

/-- The part of the text that is the fraction. -/
theorem span_fraction (n : Number) :
    (if (n.fractionText ++ n.exponentText).head? = some dot then
      (n.fractionText ++ n.exponentText).tail.takeWhile isDigit else []) = n.fractionDigits ∧
    (if (n.fractionText ++ n.exponentText).head? = some dot then
      (n.fractionText ++ n.exponentText).tail.dropWhile isDigit
      else n.fractionText ++ n.exponentText) = n.exponentText := by
  rw [fractionText, fractionDigits]
  cases n.fraction with
  | none =>
    have hdot : n.exponentText.head? ≠ some dot := fun h => (head_exponentText h).2 rfl
    exact ⟨if_neg hdot, if_neg hdot⟩
  | some d =>
    obtain ⟨htake, hdrop⟩ := span_append (t := n.exponentText) d.isDigit
      fun c hc => (head_exponentText hc).1
    exact ⟨(if_pos rfl).trans htake, (if_pos rfl).trans hdrop⟩

/-- **The text of a number is read as the double nearest to it.** -/
theorem doubleFromChars_text (n : Number) : doubleFromChars n.text = Binary64.round n.value := by
  have hne : n.digits.chars ++ n.fractionDigits ≠ [] := by
    simp [n.digits.ne_nil]
  simp only [doubleFromChars, head_text, tail_text, span_body, span_fraction, if_neg hne,
    exponentFromChars_text]
  rfl

/-- An integer is read from the digits in front of an exponent. -/
theorem intFromChars_text (n : Number) :
    JsonParse.intFromChars n.text = if IsInt64 n.integer then some n.integer else none := by
  simp only [JsonParse.intFromChars, head_text, tail_text, span_body, if_neg n.digits.ne_nil]
  rfl

/-! ### The span -/

theorem text_withoutExponent (n : Number) : n.withoutExponent.text = n.front := by
  rw [text_eq_front, exponentText]
  exact List.append_nil _

/-- An exponent is taken with its `e-` or not at all. -/
theorem numberSpan_exponentText (n : Number) (h : JsonParse.Stops c) (k : List UInt8) :
    JsonParse.numberSpan (n.exponentText ++ c :: k) =
      if n.lowerMinus then (n.exponentText, c :: k) else ([], n.exponentText ++ c :: k) := by
  rw [exponentText, lowerMinus]
  cases n.exponent with
  | none => exact h.numberSpan k
  | some e =>
    obtain ⟨capital, sign, ds⟩ := e
    cases capital with
    | true => exact JsonParse.numberSpan_of_not (c := 69) rfl (by decide) (Or.inl (by decide))
    | false =>
      cases sign with
      | none => exact JsonParse.numberSpan_of_not (c := 101) rfl (by decide) (Or.inr (ds.head_ne rfl _))
      | plus => exact JsonParse.numberSpan_of_not (c := 101) rfl (by decide) (Or.inr (by rintro ⟨⟩))
      | minus =>
        have hdigits : ∀ d ∈ minus :: ds.chars, JsonParse.isNumber d = true ∨ d = dot := by
          refine List.forall_mem_cons.mpr ⟨Or.inl rfl, fun d hd => Or.inl ?_⟩
          exact isNumber_of_isDigit (ds.isDigit d hd)
        have hspan := JsonParse.numberSpan_append hdigits (c :: k)
        rw [h.numberSpan, List.append_nil] at hspan
        change JsonParse.numberSpan (101 :: (minus :: ds.chars ++ c :: k)) = _
        rw [JsonParse.numberSpan, if_pos (Or.inr (Or.inr ⟨rfl, rfl⟩)), hspan]
        rfl

/-- **The scan takes the text of `scanned`** up to what stops a number. -/
theorem numberSpan_text (n : Number) (h : JsonParse.Stops c) (k : List UInt8) :
    JsonParse.numberSpan (n.text ++ c :: k) = (n.scanned.text, n.unscanned ++ c :: k) := by
  have hfront := JsonParse.numberSpan_append (fun d hd => mem_front (n := n) hd)
    (n.exponentText ++ c :: k)
  rw [text_eq_front, List.append_assoc, hfront, numberSpan_exponentText n h, scanned, unscanned]
  split_ifs
  · rw [text_eq_front]
    rfl
  · rw [text_withoutExponent, List.append_nil]

/-- The characters of an exponent. -/
theorem mem_exponentText (h : c ∈ n.exponentText) :
    isDigit c = true ∨ c ∈ [(101 : UInt8), 69, 43, minus] := by
  rw [exponentText] at h
  cases hexponent : n.exponent with
  | none =>
    rw [hexponent] at h
    exact absurd h List.not_mem_nil
  | some e =>
    rw [hexponent] at h
    rcases List.mem_cons.mp h with rfl | h
    · cases e.capital <;> exact Or.inr (by decide)
    · rcases List.mem_append.mp h with h | h
      · cases hsign : e.sign with
        | none =>
          rw [hsign] at h
          exact absurd h List.not_mem_nil
        | plus =>
          rw [hsign] at h
          rw [List.mem_singleton.mp h]
          exact Or.inr (by decide)
        | minus =>
          rw [hsign] at h
          rw [List.mem_singleton.mp h]
          exact Or.inr (by decide)
      · exact Or.inl (e.digits.isDigit c h)

/-- What is left of an exponent holds no delimiter. -/
theorem not_isDelimiter_of_mem_unscanned (h : c ∈ n.unscanned) :
    JsonParse.isDelimiter c = false := by
  rw [unscanned] at h
  split_ifs at h
  · exact absurd h List.not_mem_nil
  · rcases mem_exponentText h with hdigit | hmark
    · exact JsonParse.not_isDelimiter_of_isNumber (isNumber_of_isDigit hdigit)
    · exact forall_of_all (P := fun c => JsonParse.isDelimiter c = false) (by decide) c hmark

theorem fraction_scanned (n : Number) : n.scanned.fraction = n.fraction := by
  rw [scanned]
  split_ifs <;> rfl

theorem integer_scanned (n : Number) : n.scanned.integer = n.integer := by
  rw [scanned]
  split_ifs <;> rfl

/-- There is a dot in the text where there is a fraction. -/
theorem dot_mem_text (n : Number) : dot ∈ n.text ↔ n.fraction.isSome := by
  cases hfraction : n.fraction with
  | none =>
    refine iff_of_false ?_ Bool.false_ne_true
    rw [text_eq_front, front, fractionText, hfraction, List.mem_append, List.mem_append]
    rintro ((h | h) | h)
    · split_ifs at h with hneg
      · exact absurd (List.mem_singleton.mp h) (by decide)
      · exact absurd h List.not_mem_nil
    · rw [Option.map_none, Option.getD_none, List.append_nil] at h
      exact Bool.false_ne_true (n.digits.isDigit dot h)
    · rcases mem_exponentText h with h | h
      · exact Bool.false_ne_true h
      · exact absurd h (by decide)
  | some d =>
    refine iff_of_true ?_ rfl
    rw [text, fractionText, hfraction]
    simp

/-- **A number is read** in front of what stops it. -/
theorem parseValueNumber_text (toChars : ℚ → List UInt8) (n : Number) (h : JsonParse.Stops c)
    (k : List UInt8) :
    JsonParse.parseValueNumber ⟨toChars, doubleFromChars⟩ (n.text ++ c :: k) =
      n.read.map fun value => (value, n.unscanned ++ c :: k) := by
  have hne : n.scanned.text ≠ [] := by
    rw [text]
    simp [n.scanned.digits.ne_nil]
  have hdot := n.scanned.dot_mem_text
  rw [fraction_scanned] at hdot
  rw [JsonParse.parseValueNumber, numberSpan_text n h, read]
  dsimp only
  rw [if_neg hne, intFromChars_text, integer_scanned, doubleFromChars_text]
  cases hfraction : n.fraction with
  | none =>
    rw [hfraction] at hdot
    rw [if_neg (fun hmem => Bool.false_ne_true (hdot.mp hmem))]
    split_ifs <;> rfl
  | some d =>
    rw [hfraction] at hdot
    rw [if_pos (hdot.mpr rfl), Option.map_map]
    rfl

/-! ### Reading the number that is written -/

/-- **The number is read right**: the value is the one that is written, or the double nearest to it
unless the number is an integer an `int64_t` holds. -/
def Means (n : Number) (v : Json) : Prop :=
  ∃ q, v.number = some q ∧
    (q = n.value ∨ ¬ (n.IsInteger ∧ IsInt64 n.integer) ∧ Binary64.round n.value = some q)

/-- `std::from_chars` refuses what the scan gives it. -/
def Refused (n : Number) : Prop :=
  match n.fraction with
  | none => ¬ IsInt64 n.integer
  | some _ => Binary64.round n.scanned.value = none

/-- No part of the value is lost with the exponent: there is none, or it is read, or it makes no
difference. -/
def Faithful (n : Number) : Prop :=
  n.exponent = none ∨ (n.lowerMinus = true ∧ n.fraction ≠ none) ∨ n.mantissa = 0 ∨ n.power = 0

theorem read_eq_none_iff (n : Number) : n.read = none ↔ n.Refused := by
  rw [read, Refused]
  cases n.fraction with
  | none => simp
  | some d => exact Option.map_eq_none_iff

theorem mantissa_of_integer (h : n.fraction = none) : n.mantissa = n.integer := by
  rw [mantissa, integer, fractionDigits, h]
  split_ifs <;> simp

theorem value_of_power (h : n.power = 0) : n.value = n.mantissa := by
  rw [value, h, zpow_zero, mul_one]

/-- An exponent moves a number by a factor of ten. -/
theorem far_of_power (h : n.power ≠ 0) :
    10 * |n.mantissa| ≤ |n.value| ∨ 10 * |n.value| ≤ |n.mantissa| := by
  have hten : |(10 : ℚ) ^ n.power| = 10 ^ n.power := abs_of_pos (zpow_pos (by norm_num) _)
  have hnonneg := abs_nonneg n.mantissa
  rw [value, abs_mul, hten]
  rcases lt_or_gt_of_ne h with hneg | hpos
  · refine Or.inr ?_
    have hle : (10 : ℚ) ^ (n.power + 1) ≤ 10 ^ (0 : ℤ) :=
      zpow_le_zpow_right₀ (by norm_num) (by omega)
    rw [zpow_add_one₀ (by norm_num), zpow_zero] at hle
    nlinarith
  · refine Or.inl ?_
    have hle : (10 : ℚ) ^ (1 : ℤ) ≤ 10 ^ n.power := zpow_le_zpow_right₀ (by norm_num) (by omega)
    rw [zpow_one] at hle
    nlinarith

/-- What the span denotes. -/
theorem value_scanned (n : Number) :
    n.scanned.value = if n.lowerMinus then n.value else n.mantissa := by
  rw [scanned]
  split_ifs
  · rfl
  · exact value_of_power rfl

/-- What is read stands for the value of the span. -/
theorem number_of_read {v : Json} (h : n.read = some v) : ∃ q, v.number = some q ∧
    (n.fraction = none ∧ q = n.mantissa ∨
      n.fraction ≠ none ∧ Binary64.round n.scanned.value = some q) := by
  rw [read] at h
  cases hfraction : n.fraction with
  | none =>
    rw [hfraction] at h
    obtain ⟨-, hv⟩ := Option.ite_none_right_eq_some.mp h
    cases hv
    exact ⟨n.integer, rfl, Or.inl ⟨rfl, (mantissa_of_integer hfraction).symm⟩⟩
  | some d =>
    rw [hfraction] at h
    obtain ⟨q, hround, rfl⟩ := Option.map_eq_some_iff.mp h
    exact ⟨q, rfl, Or.inr ⟨Option.some_ne_none d, hround⟩⟩

/-- An exponent that is not lost is in the value of the span. -/
theorem Faithful.value_eq (h : n.Faithful) :
    n.value = if n.lowerMinus ∧ n.fraction ≠ none then n.value else n.mantissa := by
  split_ifs with hread
  · rfl
  · rcases h with hnone | hlower | hzero | hpower
    · exact value_of_power (by rw [power, hnone]; rfl)
    · exact absurd hlower hread
    · rw [value, hzero, zero_mul]
    · exact value_of_power hpower

/-- **Where the exponent is not lost the number that is written is read, and nowhere else.** -/
theorem means_iff {v : Json} (h : n.read = some v) : n.Means v ↔ n.Faithful := by
  obtain ⟨q, hq, hread⟩ := number_of_read h
  constructor
  · rintro ⟨q', hq', hmeans⟩
    obtain rfl : q = q' := Option.some.inj (hq.symm.trans hq')
    have hvalue : Binary64.StandsFor q n.value := hmeans.imp_right And.right
    by_contra hlost
    rw [Faithful, not_or, not_or, not_or] at hlost
    obtain ⟨-, hlower, hmantissa, hpower⟩ := hlost
    -- the span stops in front of the exponent, so the value is the mantissa's
    have hfront : Binary64.StandsFor q n.mantissa := by
      rcases hread with ⟨-, heq⟩ | ⟨hfraction, hround⟩
      · exact Or.inl heq
      · rw [value_scanned, if_neg fun hminus => hlower ⟨hminus, hfraction⟩] at hround
        exact Or.inr hround
    have hten : (10 : ℚ) ^ n.power ≠ 0 := zpow_ne_zero _ (by norm_num)
    rcases far_of_power hpower with hfar | hfar
    · exact hfront.not_of_far hmantissa hfar hvalue
    · exact hvalue.not_of_far (mul_ne_zero hmantissa hten) hfar hfront
  · intro hfaithful
    have hvalue := hfaithful.value_eq
    refine ⟨q, hq, ?_⟩
    rcases hread with ⟨hfraction, heq⟩ | ⟨hfraction, hround⟩
    · rw [if_neg fun h => h.2 hfraction] at hvalue
      exact Or.inl (heq.trans hvalue.symm)
    · rw [value_scanned] at hround
      simp only [hfraction, ne_eq, not_false_eq_true, and_true] at hvalue
      rw [← hvalue] at hround
      exact Or.inr ⟨fun hint => hfraction hint.1.1, hround⟩

end Number

end JsonText

end TradingEngine
