import Mathlib.Data.Nat.Digits.Lemmas

/-!
# Machinery/Ascii — bytes of a text, and the numerals written with them

A text is a list of bytes.  A numeral is a list of digits, most significant first; `value` reads it
and `digits` writes it, in any base.

* `value_digits` — a number is read back from its digits.
* `decimal_ofDecimal_iff` — which texts are written back from their numbers.
* `span_append` — a span taken while a test holds stops at the first byte that fails it.
* `cut_append`, `cut_part` — a text is cut at the first occurrence of a mark, whatever comes behind.
-/

namespace Ascii

/-- A text of ASCII characters. -/
def text (s : String) : List UInt8 := s.toList.map Char.toUInt8

/-- A literal is made of its characters: it is rewritten to them before anything is computed. -/
theorem text_ofList (l : List Char) : text (String.ofList l) = l.map Char.toUInt8 := by
  rw [text, String.toList_ofList]

def tab : UInt8 := 9
def lf : UInt8 := 10
def cr : UInt8 := 13
def space : UInt8 := 32
def quote : UInt8 := 34
def comma : UInt8 := 44
def minus : UInt8 := 45
def dot : UInt8 := 46
def colon : UInt8 := 58
def semicolon : UInt8 := 59
def openBracket : UInt8 := 91
def backslash : UInt8 := 92
def closeBracket : UInt8 := 93
def openBrace : UInt8 := 123
def closeBrace : UInt8 := 125

/-- `'0'` to `'9'`. -/
def isDigit (c : UInt8) : Bool := 48 ≤ c ∧ c ≤ 57

/-- `'a'` to `'z'` and `'A'` to `'Z'`. -/
def isLetter (c : UInt8) : Bool := (97 ≤ c ∧ c ≤ 122) ∨ (65 ≤ c ∧ c ≤ 90)

/-- The white space of the C locale. -/
def isSpace (c : UInt8) : Bool := c = space ∨ (9 ≤ c ∧ c ≤ 13)

/-- The small letter of a capital one. -/
def lower (c : UInt8) : UInt8 := if 65 ≤ c ∧ c ≤ 90 then c + 32 else c

/-- Every byte of a text passes a test if the list says so. -/
theorem forall_of_all {P : UInt8 → Prop} [DecidablePred P] {s : List UInt8}
    (h : s.all (fun c => decide (P c)) = true) : ∀ c ∈ s, P c :=
  fun c hc => of_decide_eq_true (List.all_eq_true.mp h c hc)

theorem isSpace_of_isDigit {c : UInt8} (h : isDigit c = true) : isSpace c = false := by
  rw [isDigit, decide_eq_true_iff, UInt8.le_iff_toNat_le, UInt8.le_iff_toNat_le] at h
  have hspace : c ≠ space := by
    rintro rfl
    exact absurd h.1 (by decide)
  have hcontrol : ¬ (9 ≤ c ∧ c ≤ 13) := by
    rw [UInt8.le_iff_toNat_le, UInt8.le_iff_toNat_le]
    rintro ⟨-, hle⟩
    have hlt : (13 : UInt8).toNat < (48 : UInt8).toNat := by decide
    omega
  rw [isSpace, decide_eq_false_iff_not, not_or]
  exact ⟨hspace, hcontrol⟩

/-- The byte of a decimal digit, and the digit of a byte. -/
def digitByte (d : ℕ) : UInt8 := UInt8.ofNat (48 + d)

def digitOf (c : UInt8) : ℕ := c.toNat - 48

theorem digit_all : ∀ d < 10, isDigit (digitByte d) = true ∧ digitOf (digitByte d) = d := by decide

theorem isDigit_digitByte {d : ℕ} (h : d < 10) : isDigit (digitByte d) = true := (digit_all d h).1

theorem digitOf_digitByte {d : ℕ} (h : d < 10) : digitOf (digitByte d) = d := (digit_all d h).2

/-- The number of a digit. -/
theorem toNat_of_isDigit {c : UInt8} (h : isDigit c = true) : 48 ≤ c.toNat ∧ c.toNat ≤ 57 := by
  rw [isDigit, decide_eq_true_iff, UInt8.le_iff_toNat_le, UInt8.le_iff_toNat_le] at h
  exact h

theorem digitOf_lt {c : UInt8} (h : isDigit c = true) : digitOf c < 10 := by
  have hbounds := toNat_of_isDigit h
  rw [digitOf]
  omega

theorem digitByte_digitOf {c : UInt8} (h : isDigit c = true) : digitByte (digitOf c) = c := by
  have hbounds := toNat_of_isDigit h
  rw [digitByte, digitOf, Nat.add_sub_cancel' hbounds.1, UInt8.ofNat_toNat]

/-! ## Numerals -/

/-- The number a list of digits stands for. -/
def value (base : ℕ) (ds : List ℕ) : ℕ := ds.foldl (fun n d => n * base + d) 0

/-- The digits of a number, most significant first; zero has one digit. -/
def digits (base n : ℕ) : List ℕ := if n = 0 then [0] else (Nat.digits base n).reverse

theorem value_eq_ofDigits (base : ℕ) (ds : List ℕ) :
    value base ds = Nat.ofDigits base ds.reverse := by
  induction ds using List.reverseRecOn with
  | nil => rfl
  | append_singleton ds d ih =>
    rw [List.reverse_append, List.reverse_singleton, List.singleton_append, Nat.ofDigits_cons, ← ih,
      value, List.foldl_append]
    simp only [List.foldl_cons, List.foldl_nil, value]
    ring

theorem value_cons (base d : ℕ) (ds : List ℕ) :
    value base (d :: ds) = d * base ^ ds.length + value base ds := by
  rw [value_eq_ofDigits, value_eq_ofDigits, List.reverse_cons, Nat.ofDigits_append,
    Nat.ofDigits_singleton, List.length_reverse]
  ring

/-- **A number is read back from its digits.** -/
theorem value_digits (base n : ℕ) : value base (digits base n) = n := by
  rw [digits]
  split_ifs with h
  · rw [h]
    simp [value]
  · rw [value_eq_ofDigits, List.reverse_reverse, Nat.ofDigits_digits]

/-- A numeral is smaller than the base to the power of its length. -/
theorem value_lt {base : ℕ} {ds : List ℕ} (hbase : 1 < base) (h : ∀ d ∈ ds, d < base) :
    value base ds < base ^ ds.length := by
  rw [value_eq_ofDigits, ← List.length_reverse]
  exact Nat.ofDigits_lt_base_pow_length hbase fun d hd => h d (List.mem_reverse.mp hd)

theorem digits_ne_nil (base n : ℕ) : digits base n ≠ [] := by
  rw [digits]
  split_ifs with h
  · exact List.cons_ne_nil _ _
  · rw [Ne, List.reverse_eq_nil_iff]
    exact Nat.digits_ne_nil_iff_ne_zero.mpr h

theorem lt_of_mem_digits {base n d : ℕ} (hbase : 1 < base) (h : d ∈ digits base n) : d < base := by
  rw [digits] at h
  split_ifs at h
  · rw [List.mem_singleton.mp h]
    omega
  · exact Nat.digits_lt_base hbase (List.mem_reverse.mp h)

/-! ## Decimal texts -/

/-- The decimal text of a number. -/
def decimal (n : ℕ) : List UInt8 := (digits 10 n).map digitByte

/-- The number a decimal text stands for. -/
def ofDecimal (s : List UInt8) : ℕ := value 10 (s.map digitOf)

theorem decimal_ne_nil (n : ℕ) : decimal n ≠ [] := by
  rw [decimal, Ne, List.map_eq_nil_iff]
  exact digits_ne_nil 10 n

theorem isDigit_of_mem_decimal {n : ℕ} {c : UInt8} (h : c ∈ decimal n) : isDigit c = true := by
  obtain ⟨d, hd, rfl⟩ := List.mem_map.mp h
  exact isDigit_digitByte (lt_of_mem_digits (by decide) hd)

theorem ofDecimal_lt {s : List UInt8} (h : ∀ c ∈ s, isDigit c = true) :
    ofDecimal s < 10 ^ s.length := by
  rw [ofDecimal, ← List.length_map digitOf]
  refine value_lt (by decide) fun d hd => ?_
  obtain ⟨c, hc, rfl⟩ := List.mem_map.mp hd
  exact digitOf_lt (h c hc)

theorem ofDecimal_decimal (n : ℕ) : ofDecimal (decimal n) = n := by
  have hmap : (decimal n).map digitOf = digits 10 n := by
    rw [decimal, List.map_map]
    refine (List.map_congr_left fun d hd => ?_).trans (List.map_id _)
    exact digitOf_digitByte (lt_of_mem_digits (by decide) hd)
  rw [ofDecimal, hmap, value_digits]

/-- The way a number is written: digits, and no zero in front of another digit. -/
def Canonical (s : List UInt8) : Prop :=
  s ≠ [] ∧ (∀ c ∈ s, isDigit c = true) ∧ (s.head? = some 48 → s = [48])

theorem canonical_decimal (n : ℕ) : Canonical (decimal n) := by
  refine ⟨decimal_ne_nil n, fun c => isDigit_of_mem_decimal, fun hzero => ?_⟩
  by_cases hn : n = 0
  · rw [hn]
    rfl
  · -- the first digit of any other number is its leading one
    have hne : Nat.digits 10 n ≠ [] := Nat.digits_ne_nil_iff_ne_zero.mpr hn
    have hlast := Nat.getLast_digit_ne_zero 10 hn
    have hlt : (Nat.digits 10 n).getLast hne < 10 :=
      Nat.digits_lt_base (by decide) (List.getLast_mem hne)
    rw [decimal, digits, if_neg hn, List.head?_map, List.head?_reverse,
      List.getLast?_eq_getLast_of_ne_nil hne, Option.map_some, Option.some.injEq] at hzero
    have hdigit := digitOf_digitByte hlt
    rw [hzero] at hdigit
    exact absurd hdigit.symm hlast

/-- **A text is written back** from its number exactly if it is written as numbers are. -/
theorem decimal_ofDecimal_iff {s : List UInt8} : decimal (ofDecimal s) = s ↔ Canonical s := by
  refine ⟨fun h => h ▸ canonical_decimal (ofDecimal s), fun ⟨hne, hdigits, hzero⟩ => ?_⟩
  have hback : (s.map digitOf).map digitByte = s := by
    rw [List.map_map]
    exact (List.map_congr_left fun c hc => digitByte_digitOf (hdigits c hc)).trans (List.map_id s)
  suffices h : digits 10 (ofDecimal s) = s.map digitOf by rw [decimal, h, hback]
  by_cases hhead : s.head? = some 48
  · rw [hzero hhead]
    rfl
  · have hlt : ∀ d ∈ (s.map digitOf).reverse, d < 10 := by
      intro d hd
      obtain ⟨c, hc, rfl⟩ := List.mem_map.mp (List.mem_reverse.mp hd)
      exact digitOf_lt (hdigits c hc)
    obtain ⟨c, tail, rfl⟩ := List.exists_cons_of_ne_nil hne
    have hlead : digitOf c ≠ 0 := by
      intro h0
      have hc := digitByte_digitOf (hdigits c List.mem_cons_self)
      rw [h0] at hc
      exact hhead (congrArg some hc.symm)
    have hnat : Nat.digits 10 (ofDecimal (c :: tail)) = ((c :: tail).map digitOf).reverse := by
      rw [ofDecimal, value_eq_ofDigits]
      refine Nat.digits_ofDigits 10 (by decide) _ hlt fun hnil => ?_
      simpa using hlead
    have hpos : ofDecimal (c :: tail) ≠ 0 := by
      intro h0
      rw [h0, Nat.digits_zero] at hnat
      exact absurd (List.reverse_eq_nil_iff.mp hnat.symm) (List.cons_ne_nil _ _)
    rw [digits, if_neg hpos, hnat, List.reverse_reverse]

/-! ## Spans -/

variable {α : Type*} {p : α → Bool}

/-- **A span stops at the first element that fails the test.** -/
theorem span_append {s t : List α} (hs : ∀ c ∈ s, p c = true) (ht : ∀ c ∈ t.head?, p c = false) :
    (s ++ t).takeWhile p = s ∧ (s ++ t).dropWhile p = t := by
  have htake : t.takeWhile p = [] ∧ t.dropWhile p = t := by
    cases t with
    | nil => exact ⟨rfl, rfl⟩
    | cons c t =>
      have hc := ht c rfl
      exact ⟨List.takeWhile_cons_of_neg (by simp [hc]), List.dropWhile_cons_of_neg (by simp [hc])⟩
  rw [List.takeWhile_append_of_pos hs, List.dropWhile_append_of_pos hs, htake.1, htake.2]
  exact ⟨List.append_nil s, rfl⟩

/-! ## Cutting at a mark -/

section Cut

variable [DecidableEq α] {mark s t a b : List α} {d : α}

/-- What stands in front of the first occurrence of a mark, and what stands behind it. -/
def cut (mark : List α) : List α → Option (List α × List α)
  | [] => none
  | c :: s =>
    if mark <+: c :: s then some ([], (c :: s).drop mark.length)
    else (cut mark s).map fun r => (c :: r.1, r.2)

/-- The mark stands where the text is cut. -/
theorem eq_of_cut (h : cut mark s = some (a, b)) : s = a ++ mark ++ b := by
  induction s generalizing a with
  | nil => cases h
  | cons c s ih =>
    rw [cut] at h
    split_ifs at h with hmark
    · cases h
      obtain ⟨t, ht⟩ := hmark
      rw [← ht, List.drop_left, List.nil_append]
    · obtain ⟨⟨a', b'⟩, hcut, heq⟩ := Option.map_eq_some_iff.mp h
      cases heq
      rw [ih hcut]
      rfl

/-- **What comes behind does not change the cut.** -/
theorem cut_append (h : cut mark s = some (a, b)) (t : List α) :
    cut mark (s ++ t) = some (a, b ++ t) := by
  induction s generalizing a with
  | nil => cases h
  | cons c s ih =>
    rw [cut] at h
    rw [List.cons_append, cut]
    split_ifs at h with hmark
    · cases h
      have hle := hmark.length_le
      rw [← List.cons_append, if_pos (hmark.trans (List.prefix_append _ _)),
        List.drop_append_of_le_length hle]
    · obtain ⟨⟨a', b'⟩, hcut, heq⟩ := Option.map_eq_some_iff.mp h
      cases heq
      have hmark' : ¬ mark <+: c :: (s ++ t) := by
        intro hpre
        have hlength := congrArg List.length (eq_of_cut hcut)
        rw [List.length_append, List.length_append] at hlength
        refine hmark (List.prefix_of_prefix_length_le hpre (List.prefix_append (c :: s) t) ?_)
        rw [List.length_cons]
        omega
      rw [if_neg hmark', ih hcut]
      rfl

/-- **A part of a text that ends with its first mark** holds no mark. -/
theorem cut_part (h : cut mark t = some (a, [])) (hpre : s <+: t) (hne : s ≠ t) :
    cut mark s = none := by
  cases hcut : cut mark s with
  | none => rfl
  | some r =>
    obtain ⟨a', b'⟩ := r
    obtain ⟨tail, rfl⟩ := hpre
    rw [cut_append hcut] at h
    cases h' : b' ++ tail with
    | cons c l =>
      rw [h'] at h
      cases h
    | nil =>
      rw [(List.append_eq_nil_iff.mp h').2, List.append_nil] at hne
      exact absurd rfl hne

/-- Elements the mark does not start with are passed over. -/
theorem cut_of_notMem (h : d ∉ s) (mark t : List α) :
    cut (d :: mark) (s ++ t) = (cut (d :: mark) t).map fun r => (s ++ r.1, r.2) := by
  induction s with
  | nil => simp
  | cons c s ih =>
    obtain ⟨hne, hmem⟩ := List.ne_and_not_mem_of_not_mem_cons h
    rw [List.cons_append, cut, if_neg, ih hmem, Option.map_map]
    · rfl
    · intro hpre
      exact hne (List.cons_prefix_cons.mp hpre).1

/-- The mark is found where it stands, behind elements it does not start with. -/
theorem cut_of_notMem_mark (h : d ∉ s) (mark t : List α) :
    cut (d :: mark) (s ++ (d :: mark ++ t)) = some (s, t) := by
  have hmark : d :: mark <+: d :: (mark ++ t) := List.prefix_append (d :: mark) t
  rw [cut_of_notMem h, List.cons_append, cut, if_pos hmark, ← List.cons_append, List.drop_left,
    Option.map_some, List.append_nil]

/-- A part without the first element of the mark is passed over. -/
theorem cut_append_eq_none (hd : d ∉ s) (h : cut (d :: mark) t = none) :
    cut (d :: mark) (s ++ t) = none := by
  rw [cut_of_notMem hd, h, Option.map_none]

/-- A text without the first element of a mark is not cut. -/
theorem cut_eq_none_of_notMem (h : d ∉ s) (mark : List α) : cut (d :: mark) s = none := by
  have hcut := cut_of_notMem h mark []
  rw [List.append_nil] at hcut
  rw [hcut]
  rfl

/-- A text is cut at an element of it. -/
theorem exists_cut_of_mem (h : d ∈ s) : ∃ a b, cut [d] s = some (a, b) := by
  obtain ⟨front, back, rfl, hfront⟩ := List.eq_append_cons_of_mem h
  exact ⟨front, back, cut_of_notMem_mark hfront [] back⟩

/-- **A mark is found where it was**, whatever comes behind it. -/
theorem cut_front (h : cut (d :: mark) s = some (a, b)) (more : List α) :
    cut (d :: mark) (a ++ (d :: mark) ++ more) = some (a, more) := by
  induction s generalizing a with
  | nil => cases h
  | cons c s ih =>
    rw [cut] at h
    split_ifs at h with hmark
    · cases h
      have hpre : d :: mark <+: d :: (mark ++ more) := List.prefix_append (d :: mark) more
      rw [List.nil_append, List.cons_append, cut, if_pos hpre, ← List.cons_append, List.drop_left]
    · obtain ⟨⟨a', b'⟩, hcut, heq⟩ := Option.map_eq_some_iff.mp h
      cases heq
      have hmark' : ¬ d :: mark <+: c :: (a' ++ (d :: mark) ++ more) := by
        intro hpre
        have hfront : d :: mark <+: c :: (a' ++ (d :: mark)) := by
          refine List.prefix_of_prefix_length_le hpre (List.prefix_append (c :: (a' ++ _)) more) ?_
          simp only [List.length_cons, List.length_append]
          omega
        refine hmark (hfront.trans ?_)
        rw [eq_of_cut hcut]
        exact List.prefix_append (c :: (a' ++ _)) b'
      rw [List.cons_append, List.cons_append, cut, if_neg hmark', ih hcut]
      rfl

theorem not_infix_of_cut_eq_none (hmark : mark ≠ []) (h : cut mark s = none) : ¬ mark <:+: s := by
  induction s with
  | nil => exact fun hinfix => hmark (List.infix_nil.mp hinfix)
  | cons c s ih =>
    rw [cut] at h
    split_ifs at h with hpre
    rw [Option.map_eq_none_iff] at h
    rw [List.infix_cons_iff, not_or]
    exact ⟨hpre, ih h⟩

/-- **No mark stands in front of the cut.** -/
theorem not_infix_of_cut (hmark : mark ≠ []) (h : cut mark s = some (a, b)) : ¬ mark <:+: a := by
  induction s generalizing a with
  | nil => cases h
  | cons c s ih =>
    rw [cut] at h
    split_ifs at h with hpre
    · cases h
      exact fun hinfix => hmark (List.infix_nil.mp hinfix)
    · obtain ⟨⟨a', b'⟩, hcut, heq⟩ := Option.map_eq_some_iff.mp h
      cases heq
      rw [List.infix_cons_iff, not_or]
      refine ⟨fun hfront => hpre (hfront.trans ?_), ih hcut⟩
      rw [eq_of_cut hcut, List.append_assoc]
      exact List.prefix_append (c :: a') (mark ++ b')

end Cut

end Ascii
