import Mathlib.Data.List.TakeWhile
import TradingEngine.Json.Parse
import TradingEngine.Json.StringBuilder

/-!
# Json/RoundTrip — a plain tree comes back from its text

A value is read back in front of any delimiter, and a container in front of anything; the delimiters
are what the writer puts after a value.  The fuel is found on the way: `Reads` says that enough of
it gives the value, and is combined over the elements and the fields.
-/

namespace TradingEngine

open Ascii Json

namespace JsonParse

variable {doubles : DoubleText} {c : UInt8} {k : List UInt8}

/-- Enough fuel gives the value and leaves the rest. -/
def Reads (scan : ℕ → Scan Json) (value : Json) (rest : List UInt8) : Prop :=
  ∃ bound, ∀ fuel ≥ bound, scan fuel = .ok value rest

/-! ## Scalars -/

theorem resync_delimiter (value : Json) (h : isDelimiter c = true) (k : List UInt8) :
    resync value (c :: k) = .ok value (c :: k) := by
  rw [resync, List.dropWhile_cons_of_neg (by simp [h])]

/-- A character that stops a word and a number. -/
structure Stops (c : UInt8) : Prop where
  letter : isLetter c = false
  number : isNumber c = false
  dot : c ≠ dot
  exponent : c ≠ 101

theorem delimiter_stops (h : isDelimiter c = true) : Stops c := by
  have hc : c = comma ∨ c = closeBrace ∨ c = closeBracket := by
    simpa [isDelimiter, isClosing] using h
  rcases hc with rfl | rfl | rfl <;> exact ⟨by decide, by decide, by decide, by decide⟩

/-- Where a value starts nothing is passed over. -/
theorem skipToValue_of_startsValue (h : startsValue (c :: k) = true) :
    skipToValue (c :: k) = c :: k := by
  rw [skipToValue, if_pos (Or.inl h)]

/-- Characters other than quotes and backslashes are taken. -/
theorem parseValueString_append {s : List UInt8} (h : PlainText s) (k : List UInt8) :
    parseValueString false (s ++ k) =
      (parseValueString false k).map fun r => (s ++ r.1, r.2) := by
  induction s with
  | nil => simp
  | cons c s ih =>
    obtain ⟨hquote, hback⟩ := h c List.mem_cons_self
    rw [List.cons_append, parseValueString, if_neg hback, if_neg hquote,
      ih fun c' hc' => h c' (List.mem_cons_of_mem c hc'), Option.map_map]
    rfl

/-- A string without quotes and backslashes is read to its closing quote. -/
theorem parseValueString_plain {s : List UInt8} (h : PlainText s) (k : List UInt8) :
    parseValueString false (s ++ quote :: k) = some (s, k) := by
  have hquote : parseValueString false (quote :: k) = some ([], k) := rfl
  rw [parseValueString_append h, hquote, Option.map_some, List.append_nil]

/-- The characters of a number are taken. -/
theorem numberSpan_append {s : List UInt8} (hs : ∀ d ∈ s, isNumber d = true ∨ d = dot)
    (t : List UInt8) : numberSpan (s ++ t) = (s ++ (numberSpan t).1, (numberSpan t).2) := by
  induction s with
  | nil => rfl
  | cons d s ih =>
    have hd : isNumber d = true ∨ d = dot ∨ d = 101 ∧ (s ++ t).head? = some minus :=
      (hs d List.mem_cons_self).imp_right Or.inl
    rw [List.cons_append, numberSpan, if_pos hd,
      ih fun d' hd' => hs d' (List.mem_cons_of_mem d hd')]
    rfl

theorem numberSpan_of_not (h : isNumber c = false) (hdot : c ≠ dot)
    (hexponent : c ≠ 101 ∨ k.head? ≠ some minus) : numberSpan (c :: k) = ([], c :: k) := by
  rw [numberSpan, if_neg]
  rintro (hnumber | hc | ⟨hc, hminus⟩)
  · exact Bool.false_ne_true (h.symm.trans hnumber)
  · exact hdot hc
  · exact hexponent.elim (fun hne => hne hc) fun hne => hne hminus

theorem Stops.numberSpan (h : Stops c) (k : List UInt8) : numberSpan (c :: k) = ([], c :: k) :=
  numberSpan_of_not h.number h.dot (Or.inl h.exponent)

theorem isNumber_of_mem_intToChars {n : ℤ} : ∀ d ∈ intToChars n, isNumber d = true := by
  have hdecimal : ∀ d ∈ decimal n.natAbs, isNumber d = true := by
    intro d hd
    rw [isNumber, isDigit_of_mem_decimal hd]
    simp
  rw [intToChars]
  split_ifs
  · exact List.forall_mem_cons.mpr ⟨rfl, hdecimal⟩
  · exact hdecimal

theorem intToChars_ne_nil (n : ℤ) : intToChars n ≠ [] := by
  rw [intToChars]
  split_ifs
  · exact List.cons_ne_nil _ _
  · exact decimal_ne_nil _

/-- **An integer in range is read back from its text.** -/
theorem intFromChars_intToChars {n : ℤ} (h : IsInt64 n) : intFromChars (intToChars n) = some n := by
  have htake : (decimal n.natAbs).takeWhile isDigit = decimal n.natAbs := by
    have hspan := span_append (p := isDigit) (s := decimal n.natAbs) (t := [])
      (fun d hd => isDigit_of_mem_decimal hd) fun d hd => absurd hd (Option.not_mem_none d)
    rw [List.append_nil] at hspan
    exact hspan.1
  by_cases hneg : n < 0
  · have hn : -(n.natAbs : ℤ) = n := by omega
    simp only [intFromChars, intToChars, if_pos hneg, List.head?_cons, List.tail_cons, if_true,
      htake, decimal_ne_nil, if_false, ofDecimal_decimal, hn, h]
  · have hn : (n.natAbs : ℤ) = n := by omega
    have hhead : (decimal n.natAbs).head? ≠ some minus := by
      intro hhead
      have := isDigit_of_mem_decimal (List.mem_of_mem_head? hhead)
      exact Bool.false_ne_true this
    simp only [intFromChars, intToChars, if_neg hneg, hhead, if_false, htake, decimal_ne_nil,
      ofDecimal_decimal, hn, h, if_true]

variable (doubles) in
theorem parseValueNumber_int {n : ℤ} (hn : IsInt64 n) (h : Stops c) (k : List UInt8) :
    parseValueNumber doubles (intToChars n ++ c :: k) = some (.int n, c :: k) := by
  have hdot : dot ∉ intToChars n :=
    fun hmem => Bool.false_ne_true (isNumber_of_mem_intToChars _ hmem)
  rw [parseValueNumber, numberSpan_append fun d hd => Or.inl (isNumber_of_mem_intToChars d hd),
    h.numberSpan, List.append_nil]
  simp only [intToChars_ne_nil, if_false, hdot, intFromChars_intToChars hn, Option.map_some]

/-! ## The branches of `parse_value` -/

theorem wordAt_stops {stop : UInt8 → Bool} (hstop : stop c = false) (word k : List UInt8) :
    wordAt word stop (word ++ c :: k) = true := by
  simp [wordAt, hstop]

variable (fuel : ℕ)

theorem parseValue_null (h : Stops c) (k : List UInt8) :
    parseValue doubles (fuel + 1) (text "null" ++ c :: k) = resync .null (c :: k) := by
  have hnull : isNull (110 :: ([117, 108, 108] ++ c :: k)) = true :=
    wordAt_stops (by simp [h.letter, h.number]) (text "null") k
  have hstarts : startsValue (110 :: ([117, 108, 108] ++ c :: k)) = true := by
    rw [startsValue, hnull]
    simp
  change parseValue doubles (fuel + 1) (110 :: ([117, 108, 108] ++ c :: k)) = _
  rw [parseValue, skipToValue_of_startsValue hstarts]
  dsimp only
  rw [if_neg (by decide), if_neg (by decide), if_neg (by decide), if_neg (by rintro ⟨⟩),
    if_neg (by rintro ⟨⟩), if_pos hnull]
  rfl

theorem parseValue_true (h : Stops c) (k : List UInt8) :
    parseValue doubles (fuel + 1) (text "true" ++ c :: k) = resync (.bool true) (c :: k) := by
  have htrue : isTrue (116 :: ([114, 117, 101] ++ c :: k)) = true :=
    wordAt_stops h.letter (text "true") k
  have hstarts : startsValue (116 :: ([114, 117, 101] ++ c :: k)) = true := by
    rw [startsValue, htrue]
    simp
  change parseValue doubles (fuel + 1) (116 :: ([114, 117, 101] ++ c :: k)) = _
  rw [parseValue, skipToValue_of_startsValue hstarts]
  dsimp only
  rw [if_neg (by decide), if_neg (by decide), if_neg (by decide), if_pos htrue]
  rfl

theorem parseValue_false (h : Stops c) (k : List UInt8) :
    parseValue doubles (fuel + 1) (text "false" ++ c :: k) = resync (.bool false) (c :: k) := by
  have hfalse : isFalse (102 :: ([97, 108, 115, 101] ++ c :: k)) = true :=
    wordAt_stops h.letter (text "false") k
  have hstarts : startsValue (102 :: ([97, 108, 115, 101] ++ c :: k)) = true := by
    rw [startsValue, hfalse]
    simp
  change parseValue doubles (fuel + 1) (102 :: ([97, 108, 115, 101] ++ c :: k)) = _
  rw [parseValue, skipToValue_of_startsValue hstarts]
  dsimp only
  rw [if_neg (by decide), if_neg (by decide), if_neg (by decide), if_neg (by rintro ⟨⟩),
    if_pos hfalse]
  rfl

theorem not_isDelimiter_of_isNumber (h : isNumber c = true) : isDelimiter c = false := by
  have hne : ∀ d : UInt8, isNumber d = false → c ≠ d := by
    rintro d hd rfl
    exact Bool.false_ne_true (hd.symm.trans h)
  simp [isDelimiter, isClosing, hne comma (by decide), hne closeBrace (by decide),
    hne closeBracket (by decide)]

theorem not_isClosing_of_not_isDelimiter (h : isDelimiter c = false) : isClosing c = false := by
  simp only [isDelimiter, decide_eq_false_iff_not, not_or, Bool.not_eq_true] at h
  exact h.2

theorem not_isClosing_of_isNumber (h : isNumber c = true) : isClosing c = false :=
  not_isClosing_of_not_isDelimiter (not_isDelimiter_of_isNumber h)

theorem parseValue_number (h : isNumber c = true) (k : List UInt8) :
    parseValue doubles (fuel + 1) (c :: k) =
      match parseValueNumber doubles (c :: k) with
      | none => .invalid
      | some (value, rest) => resync value rest := by
  have hstarts : startsValue (c :: k) = true := by
    simp [startsValue, h]
  have hquote : c ≠ quote := by
    rintro rfl
    exact Bool.false_ne_true h
  rw [parseValue, skipToValue_of_startsValue hstarts]
  dsimp only
  rw [if_neg (by simp [not_isClosing_of_isNumber h]), if_neg hquote]
  exact if_pos h

theorem parseValue_string {s : List UInt8}
    (h : parseValueString false (s ++ quote :: k) = some (s, k)) :
    parseValue doubles (fuel + 1) (quote :: (s ++ quote :: k)) = resync (.string s) k := by
  rw [parseValue, skipToValue_of_startsValue rfl]
  dsimp only
  rw [if_neg (by decide), if_pos rfl, h]

theorem parseValue_array (k : List UInt8) :
    parseValue doubles (fuel + 1) (openBracket :: k) =
      (parseArray doubles fuel [] k).andThen resync := by
  rw [parseValue, skipToValue_of_startsValue rfl]
  dsimp only
  rw [if_neg (by decide), if_neg (by decide), if_neg (by decide), if_neg (by rintro ⟨⟩),
    if_neg (by rintro ⟨⟩), if_neg (by rintro ⟨⟩), if_neg (by decide)]

theorem parseValue_object (k : List UInt8) :
    parseValue doubles (fuel + 1) (openBrace :: k) =
      (parseObject doubles fuel [] k).andThen resync := by
  rw [parseValue, skipToValue_of_startsValue rfl]
  dsimp only
  rw [if_neg (by decide), if_neg (by decide), if_neg (by decide), if_neg (by rintro ⟨⟩),
    if_neg (by rintro ⟨⟩), if_neg (by rintro ⟨⟩), if_pos rfl]

/-- At a closing character there is no value, and nothing is read. -/
theorem parseValue_closing (h : isClosing c = true) (k : List UInt8) :
    parseValue doubles (fuel + 1) (c :: k) = .ok .null (c :: k) := by
  rw [parseValue, skipToValue, if_pos (Or.inr h)]
  dsimp only
  rw [if_pos h]

/-- A character that no value starts at is passed over. -/
theorem parseValue_skip (hstarts : startsValue (c :: k) = false) (hclosing : isClosing c = false) :
    parseValue doubles fuel (c :: k) = parseValue doubles fuel k := by
  have hskip : skipToValue (c :: k) = skipToValue k := by
    rw [skipToValue, if_neg (by simp [hstarts, hclosing])]
  cases fuel with
  | zero => rfl
  | succ fuel => rw [parseValue, parseValue, hskip]

/-- The colon is passed over. -/
theorem parseValue_colon (s : List UInt8) :
    parseValue doubles fuel (colon :: s) = parseValue doubles fuel s := by
  refine parseValue_skip fuel ?_ rfl
  simp only [startsValue, isTrue, isFalse, isNull, wordAt, text, colon]
  rfl

/-! ## Values -/

/-- **What is proved of a tree**: its text does not start with a closing character, and it is read
back in front of any delimiter. -/
structure ReadBack (doubles : DoubleText) (t : Json) : Prop where
  starts : ∃ c rest, write doubles t = c :: rest ∧ isClosing c = false
  reads : ∀ {d}, isDelimiter d = true → ∀ k,
    Reads (fun fuel => parseValue doubles fuel (write doubles t ++ d :: k)) t (d :: k)

/-- A value of one step of `parse_value`. -/
theorem reads_of_succ {s : List UInt8} {t : Json} {d : UInt8} {k : List UInt8}
    (hd : isDelimiter d = true)
    (h : ∀ fuel, parseValue doubles (fuel + 1) s = resync t (d :: k)) :
    Reads (fun fuel => parseValue doubles fuel s) t (d :: k) := by
  refine ⟨1, fun fuel hfuel => ?_⟩
  obtain ⟨fuel, rfl⟩ := Nat.exists_eq_add_of_le' hfuel
  exact (h fuel).trans (resync_delimiter t hd k)

theorem readBack_null : ReadBack doubles .null where
  starts := ⟨_, _, rfl, rfl⟩
  reads hd k := reads_of_succ hd fun fuel => parseValue_null fuel (delimiter_stops hd) k

theorem readBack_true : ReadBack doubles (.bool true) where
  starts := ⟨_, _, rfl, rfl⟩
  reads hd k := reads_of_succ hd fun fuel => parseValue_true fuel (delimiter_stops hd) k

theorem readBack_false : ReadBack doubles (.bool false) where
  starts := ⟨_, _, rfl, rfl⟩
  reads hd k := reads_of_succ hd fun fuel => parseValue_false fuel (delimiter_stops hd) k

theorem readBack_int {n : ℤ} (hn : IsInt64 n) : ReadBack doubles (.int n) := by
  obtain ⟨c, rest, htext⟩ := List.exists_cons_of_ne_nil (intToChars_ne_nil n)
  have hnumber : isNumber c = true :=
    isNumber_of_mem_intToChars c (htext ▸ List.mem_cons_self)
  refine ⟨⟨c, rest, htext, not_isClosing_of_isNumber hnumber⟩, fun {d} hd k => ?_⟩
  have hparse := parseValueNumber_int doubles hn (delimiter_stops hd) k
  rw [write, htext, List.cons_append] at *
  refine reads_of_succ hd fun fuel => ?_
  rw [parseValue_number fuel hnumber, hparse]

theorem readBack_string {s : List UInt8} (hs : PlainText s) : ReadBack doubles (.string s) where
  starts := ⟨_, _, rfl, rfl⟩
  reads {d} hd k := by
    have htext : write doubles (.string s) ++ d :: k = quote :: (s ++ quote :: d :: k) := by
      simp [write]
    rw [htext]
    exact reads_of_succ hd fun fuel => parseValue_string fuel (parseValueString_plain hs _)

/-! ## Arrays -/

/-- The text in front of the loop of `parse_array`. -/
def elementsText (doubles : DoubleText) : List Json → List UInt8
  | [] => [closeBracket]
  | e :: es => write doubles e ++ writeElements doubles es

/-- The text in front of the loop of `parse_object`. -/
def fieldsText (doubles : DoubleText) : List (List UInt8 × Json) → List UInt8
  | [] => [closeBrace]
  | (key, value) :: fs =>
    quote :: key ++ quote :: colon :: write doubles value ++ writeFields doubles fs

variable (doubles) in
/-- The writer puts a delimiter after an element, and a comma is read. -/
theorem writeElements_eq (es : List Json) (k : List UInt8) :
    ∃ d s, writeElements doubles es ++ k = d :: s ∧ isDelimiter d = true ∧
      skipComma (d :: s) = elementsText doubles es ++ k := by
  cases es with
  | nil => exact ⟨_, _, by rw [writeElements]; rfl, rfl, rfl⟩
  | cons e es =>
    refine ⟨comma, elementsText doubles (e :: es) ++ k, ?_, rfl, rfl⟩
    rw [writeElements, elementsText]
    rfl

variable (doubles) in
theorem writeFields_eq (fs : List (List UInt8 × Json)) (k : List UInt8) :
    ∃ d s, writeFields doubles fs ++ k = d :: s ∧ isDelimiter d = true ∧
      skipComma (d :: s) = fieldsText doubles fs ++ k := by
  cases fs with
  | nil => exact ⟨_, _, by rw [writeFields]; rfl, rfl, rfl⟩
  | cons f fs =>
    obtain ⟨key, value⟩ := f
    refine ⟨comma, fieldsText doubles ((key, value) :: fs) ++ k, ?_, rfl, rfl⟩
    rw [writeFields, fieldsText]
    rfl

/-- **The loop of `parse_array`** reads the elements that are left. -/
theorem reads_parseArray {es : List Json} (h : ∀ e ∈ es, ReadBack doubles e) (k : List UInt8) :
    ∃ bound, ∀ fuel ≥ bound, ∀ elements,
      parseArray doubles fuel elements (elementsText doubles es ++ k) =
        .ok (arrayOf (elements ++ es)) k := by
  induction es with
  | nil =>
    refine ⟨1, fun fuel hfuel elements => ?_⟩
    obtain ⟨fuel, rfl⟩ := Nat.exists_eq_add_of_le' hfuel
    rw [List.append_nil]
    rfl
  | cons e es ih =>
    obtain ⟨bound, ih⟩ := ih fun e' he' => h e' (List.mem_cons_of_mem e he')
    obtain ⟨⟨c, rest, htext, hclosing⟩, hreads⟩ := h e List.mem_cons_self
    obtain ⟨d, s, hafter, hd, hskip⟩ := writeElements_eq doubles es k
    obtain ⟨bound', hreads⟩ := hreads hd s
    refine ⟨bound + bound' + 1, fun fuel hfuel elements => ?_⟩
    obtain ⟨fuel, rfl⟩ := Nat.exists_eq_add_of_le' (Nat.le_of_add_left_le hfuel)
    have hvalue := hreads fuel (by omega)
    dsimp only at hvalue
    have hbody : elementsText doubles (e :: es) ++ k = c :: (rest ++ d :: s) := by
      rw [elementsText, List.append_assoc, hafter, htext, List.cons_append]
    have hbracket : c ≠ closeBracket := by
      rintro rfl
      exact Bool.false_ne_true hclosing.symm
    rw [htext, List.cons_append] at hvalue
    rw [hbody, parseArray, if_neg hbracket, hvalue]
    dsimp only [Scan.andThen]
    rw [hskip, ih fuel (by omega), List.append_assoc, List.singleton_append]

/-! ## Objects -/

/-- A key without quotes is read to its closing quote. -/
theorem parseKey_quoted {key : List UInt8} (h : ∀ c ∈ key, c ≠ quote) (k : List UInt8) :
    parseKey (quote :: (key ++ quote :: k)) = some (key, k) := by
  have hspan := span_append (p := fun c => decide (c ≠ quote)) (s := key) (t := quote :: k)
    (fun c hc => decide_eq_true (h c hc)) (by simp)
  rw [parseKey, List.dropWhile_cons_of_neg (by simp)]
  dsimp only
  rw [if_neg (by decide), hspan.1, hspan.2]

/-- A new key without NUL is set behind the others. -/
theorem setField_new {fields : List (List UInt8 × Json)} {key : List UInt8} (value : Json)
    (hkey : ∀ c ∈ key, c ≠ 0) (hnew : ∀ f ∈ fields, f.1 ≠ key) :
    setField fields key value = fields ++ [(key, value)] := by
  have htake : key.takeWhile (fun c => decide (c ≠ 0)) = key := by
    rw [List.takeWhile_eq_self_iff]
    exact fun c hc => decide_eq_true (hkey c hc)
  dsimp only [setField]
  rw [htake, if_neg]
  rintro ⟨f, hf, heq⟩
  exact hnew f hf heq

/-- **The loop of `parse_object`** reads the fields that are left. -/
theorem reads_parseObject {fs : List (List UInt8 × Json)} (hplain : ∀ f ∈ fs, PlainKey f.1)
    (h : ∀ f ∈ fs, ReadBack doubles f.2) (k : List UInt8) :
    ∃ bound, ∀ fuel ≥ bound, ∀ fields : List (List UInt8 × Json),
      ((fields ++ fs).map (·.1)).Nodup →
      parseObject doubles fuel fields (fieldsText doubles fs ++ k) =
        .ok (objectOf (fields ++ fs)) k := by
  induction fs with
  | nil =>
    refine ⟨1, fun fuel hfuel fields _ => ?_⟩
    obtain ⟨fuel, rfl⟩ := Nat.exists_eq_add_of_le' hfuel
    rw [List.append_nil]
    rfl
  | cons f fs ih =>
    obtain ⟨bound, ih⟩ := ih (fun f' hf' => hplain f' (List.mem_cons_of_mem f hf'))
      fun f' hf' => h f' (List.mem_cons_of_mem f hf')
    obtain ⟨key, value⟩ := f
    have hkey : PlainKey key := hplain _ List.mem_cons_self
    obtain ⟨d, s, hafter, hd, hskip⟩ := writeFields_eq doubles fs k
    obtain ⟨bound', hreads⟩ := (h _ List.mem_cons_self).reads hd s
    refine ⟨bound + bound' + 1, fun fuel hfuel fields hnodup => ?_⟩
    obtain ⟨fuel, rfl⟩ := Nat.exists_eq_add_of_le' (Nat.le_of_add_left_le hfuel)
    have hvalue := hreads fuel (by omega)
    dsimp only at hvalue
    have hbody : fieldsText doubles ((key, value) :: fs) ++ k =
        quote :: (key ++ quote :: colon :: (write doubles value ++ d :: s)) := by
      rw [fieldsText, List.append_assoc, hafter]
      simp
    have hnew : ∀ g ∈ fields, g.1 ≠ key := by
      intro g hg heq
      rw [List.map_append, List.nodup_append] at hnodup
      exact hnodup.2.2 g.1 (List.mem_map_of_mem hg) key
        (List.mem_map.mpr ⟨(key, value), List.mem_cons_self, rfl⟩) heq
    rw [hbody, parseObject, if_neg (by decide), parseKey_quoted fun c hc => (hkey.1 c hc).1]
    dsimp only
    rw [if_neg hkey.2.2, parseValue_colon, hvalue]
    dsimp only [Scan.andThen]
    have hsplit : fields ++ (key, value) :: fs = (fields ++ [(key, value)]) ++ fs :=
      List.append_cons fields (key, value) fs
    rw [hsplit] at hnodup ⊢
    rw [hskip, setField_new value hkey.2.1 hnew, ih fuel (by omega) _ hnodup]

/-! ## The tree -/

/-- A container is read from its bracket on, in front of anything. -/
theorem resync_andThen {scan : Scan Json} {value : Json} {d : UInt8} {k : List UInt8}
    (h : scan = .ok value (d :: k)) (hd : isDelimiter d = true) :
    scan.andThen resync = .ok value (d :: k) := by
  rw [h]
  exact resync_delimiter value hd k

theorem write_array {es : List Json} (hne : es ≠ []) :
    write doubles (.array es) = openBracket :: elementsText doubles es := by
  obtain ⟨e, es, rfl⟩ := List.exists_cons_of_ne_nil hne
  rw [write, elementsText, List.cons_append]

theorem write_object {fs : List (List UInt8 × Json)} (hne : fs ≠ []) :
    write doubles (.object fs) = openBrace :: fieldsText doubles fs := by
  obtain ⟨⟨key, value⟩, fs, rfl⟩ := List.exists_cons_of_ne_nil hne
  rw [write, fieldsText]
  rfl

theorem readBack_array {es : List Json} (hne : es ≠ []) (h : ∀ e ∈ es, ReadBack doubles e) :
    ReadBack doubles (.array es) where
  starts := ⟨openBracket, elementsText doubles es, write_array hne, rfl⟩
  reads {d} hd k := by
    obtain ⟨bound, hbound⟩ := reads_parseArray h (d :: k)
    refine ⟨bound + 1, fun fuel hfuel => ?_⟩
    obtain ⟨fuel, rfl⟩ := Nat.exists_eq_add_of_le' (Nat.le_of_add_left_le hfuel)
    have hres : arrayOf ([] ++ es) = .array es := by
      rw [arrayOf, List.nil_append, if_neg (by simp [hne])]
    dsimp only
    rw [write_array hne, List.cons_append, parseValue_array]
    exact resync_andThen (hres ▸ hbound fuel (by omega) []) hd

theorem readBack_object {fs : List (List UInt8 × Json)} (hne : fs ≠ [])
    (hkeys : (fs.map (·.1)).Nodup) (hplain : ∀ f ∈ fs, PlainKey f.1)
    (h : ∀ f ∈ fs, ReadBack doubles f.2) : ReadBack doubles (.object fs) where
  starts := ⟨openBrace, fieldsText doubles fs, write_object hne, rfl⟩
  reads {d} hd k := by
    obtain ⟨bound, hbound⟩ := reads_parseObject hplain h (d :: k)
    refine ⟨bound + 1, fun fuel hfuel => ?_⟩
    obtain ⟨fuel, rfl⟩ := Nat.exists_eq_add_of_le' (Nat.le_of_add_left_le hfuel)
    have hres : objectOf ([] ++ fs) = .object fs := by
      rw [objectOf, List.nil_append, if_neg (by simp [hne])]
    dsimp only
    rw [write_object hne, List.cons_append, parseValue_object]
    exact resync_andThen (hres ▸ hbound fuel (by omega) [] hkeys) hd

/-- **A plain tree is read back** in front of any delimiter. -/
theorem readBack_of_plain {t : Json} (h : Plain t) : ReadBack doubles t := by
  induction h with
  | null => exact readBack_null
  | bool value =>
    cases value with
    | true => exact readBack_true
    | false => exact readBack_false
  | int h => exact readBack_int h
  | string h => exact readBack_string h
  | array hne h ih => exact readBack_array hne ih
  | object hne hkeys hplain h ih => exact readBack_object hne hkeys hplain ih

/-- The root of a document is a container. -/
def IsContainer : Json → Prop
  | .array _ => True
  | .object _ => True
  | _ => False

theorem IsContainer.of_same {t u : Json} (h : IsContainer t) (hsame : Same t u) :
    IsContainer u := by
  cases hsame with
  | array => trivial
  | object => trivial
  | _ => exact h

variable (doubles) in
/-- The text of a plain container parses to the container. -/
theorem exists_parse_write {t : Json} (h : Plain t) (hroot : IsContainer t) :
    ∃ bound, ∀ fuel ≥ bound, parse doubles fuel (write doubles t) = some (t, true) := by
  cases h with
  | null => exact hroot.elim
  | bool value => exact hroot.elim
  | int h => exact hroot.elim
  | string h => exact hroot.elim
  | @array es hne h =>
    have hback : ∀ e ∈ es, ReadBack doubles e := fun e he => readBack_of_plain (h e he)
    obtain ⟨bound, hbound⟩ := reads_parseArray hback []
    refine ⟨bound, fun fuel hfuel => ?_⟩
    have hscan := hbound fuel hfuel []
    rw [List.append_nil, List.nil_append, arrayOf, if_neg (by simp [hne])] at hscan
    rw [write_array hne, parse, List.dropWhile_cons_of_neg (by decide)]
    · dsimp only
      rw [if_neg (by decide), hscan]
      rfl
    · rintro ⟨⟩
  | @object fs hne hkeys hplain h =>
    have hback : ∀ f ∈ fs, ReadBack doubles f.2 := fun f hf => readBack_of_plain (h f hf)
    obtain ⟨bound, hbound⟩ := reads_parseObject hplain hback []
    refine ⟨bound, fun fuel hfuel => ?_⟩
    have hscan := hbound fuel hfuel [] hkeys
    rw [List.append_nil, List.nil_append, objectOf, if_neg (by simp [hne])] at hscan
    rw [write_object hne, parse, List.dropWhile_cons_of_neg (by decide)]
    · dsimp only
      rw [if_pos rfl, hscan]
      rfl
    · rintro ⟨⟩

/-- **A document is read back**: whatever order its maps are written in, if every string is written
in the string format, the parser ends with a tree that is the same. -/
theorem parse_write_same (doubles : DoubleText) {t : Json} (h : Plain t) (hroot : IsContainer t)
    {u : JsonView} (horder : Same t u.toJson) (hquoted : u.Quoted) :
    ∃ v bound document, Same t v ∧ u.getStringValueDynamic doubles = some document ∧
      ∀ fuel ≥ bound, parse doubles fuel document = some (v, true) := by
  obtain ⟨bound, hparse⟩ := exists_parse_write doubles (h.of_same horder)
    (hroot.of_same horder)
  refine ⟨u.toJson, bound, u.write doubles, horder, JsonView.getStringValueDynamic_eq u, ?_⟩
  rw [hquoted.write_eq]
  exact hparse

/-- A document whose string and nested array hold delimiters. -/
def orderDocument : Json :=
  .object [(text "note", .string (text "\x7d,null]")), (text "fills", .array [.int (-7), .null])]

/-- The document in another order of its fields, with the formats of its values. -/
def orderDocumentReordered : JsonView :=
  .object [(text "fills", .array [.scalar (.int (-7)) false, .null]),
    (text "note", .scalar (.string (text "\x7d,null]")) true)]

theorem plain_orderDocument_fields :
    (∀ f ∈
        [(text "note", Json.string (text "\x7d,null]")), (text "fills", .array [.int (-7), .null])],
      PlainKey f.1 ∧ Plain f.2) := by
  have hfills : Plain (.array [.int (-7), .null]) := by
    refine .array (List.cons_ne_nil _ _) fun e he => ?_
    rcases List.mem_pair.mp he with rfl | rfl
    · exact .int (by decide)
    · exact .null
  intro f hf
  rcases List.mem_pair.mp hf with rfl | rfl
  · exact ⟨⟨forall_of_all (by decide), forall_of_all (by decide), by decide⟩,
      .string (forall_of_all (by decide))⟩
  · exact ⟨⟨forall_of_all (by decide), forall_of_all (by decide), by decide⟩, hfills⟩

theorem plain_orderDocument : Plain orderDocument :=
  .object (List.cons_ne_nil _ _) (by decide) (fun f hf => (plain_orderDocument_fields f hf).1)
    fun f hf => (plain_orderDocument_fields f hf).2

/-- The document holds no double, so nothing is asked of their texts. -/
def noDoubles : DoubleText := ⟨fun _ => [], fun _ => none⟩

theorem quoted_orderDocumentReordered : orderDocumentReordered.Quoted := by
  refine .object fun f hf => ?_
  rcases List.mem_pair.mp hf with rfl | rfl
  · refine .array fun t ht => ?_
    rcases List.mem_pair.mp ht with rfl | rfl
    · exact .scalar nofun
    · exact .null
  · exact .scalar fun _ _ => rfl

theorem orderDocument_readBack : ∃ v bound document, Same orderDocument v ∧
    orderDocumentReordered.getStringValueDynamic noDoubles = some document ∧
    ∀ fuel ≥ bound, parse noDoubles fuel document = some (v, true) :=
  parse_write_same noDoubles plain_orderDocument trivial (.of_perm (.swap _ _ _))
    quoted_orderDocumentReordered

/-- The text of a string that is not in the string format, in an array. -/
theorem parse_unquoted (fuel : ℕ) :
    parse noDoubles (fuel + 2) (text "[a]") = some (.array [.null], true) := rfl

/-- A string that is not in the string format comes back as null. -/
theorem unquoted_not_readBack :
    Plain (.array [.string (text "a")]) ∧
      Same (.array [.string (text "a")])
        (JsonView.array [.scalar (.string (text "a")) false]).toJson ∧
      ¬ ∃ v bound document, Same (.array [.string (text "a")]) v ∧
        (JsonView.array [.scalar (.string (text "a")) false]).getStringValueDynamic noDoubles =
          some document ∧
        ∀ fuel ≥ bound, parse noDoubles fuel document = some (v, true) := by
  refine ⟨.array (List.cons_ne_nil _ _) fun e he => ?_, .refl _, ?_⟩
  · rw [List.mem_singleton.mp he]
    exact .string (forall_of_all (by decide))
  · rintro ⟨v, bound, document, hsame, hdocument, hparse⟩
    have htext : document = text "[a]" := by
      rw [JsonView.getStringValueDynamic_eq] at hdocument
      exact (Option.some.inj hdocument).symm
    have hvalue := hparse (bound + 2) (Nat.le_add_right bound 2)
    rw [htext, parse_unquoted] at hvalue
    obtain ⟨rfl, -⟩ := Prod.mk.inj (Option.some.inj hvalue)
    cases hsame with
    | array hlength h => cases h (.string (text "a"), .null) List.mem_cons_self

end JsonParse

end TradingEngine
