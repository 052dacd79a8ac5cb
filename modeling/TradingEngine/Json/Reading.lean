import TradingEngine.Json.Document

/-!
# Json/Reading — the scan reads a document as `Doc.read` says

A value is read in front of white space and a delimiter, whatever comes behind; the loops of
`parse_array` and `parse_object` go on behind it.  The keys have to be ones `parse_key` reads.
-/

namespace TradingEngine

open Ascii Json JsonParse

namespace JsonText

variable {toChars : ℚ → List UInt8} {c : UInt8} {k : List UInt8}

/-- The outcome of a scan that has read this much. -/
def scanOf (value : Option Json) (rest : List UInt8) : Scan Json :=
  match value with
  | none => .invalid
  | some value => .ok value rest

/-- The standard library: doubles are read as it documents. -/
def standard (toChars : ℚ → List UInt8) : DoubleText := ⟨toChars, doubleFromChars⟩

/-! ## White space -/

theorem blank_cases (h : isBlank c = true) : c = space ∨ c = tab ∨ c = lf ∨ c = cr :=
  of_decide_eq_true h

theorem blank_stops (h : isBlank c = true) : Stops c := by
  rcases blank_cases h with rfl | rfl | rfl | rfl <;>
    exact ⟨by decide, by decide, by decide, by decide⟩

theorem not_isDelimiter_of_isBlank (h : isBlank c = true) : isDelimiter c = false := by
  rcases blank_cases h with rfl | rfl | rfl | rfl <;> decide

/-- What stops a value is the white space behind it, or the delimiter. -/
theorem exists_stops (w : Blank) (h : isDelimiter c = true) (k : List UInt8) :
    ∃ c' k', w.chars ++ c :: k = c' :: k' ∧ Stops c' := by
  obtain ⟨s, hs⟩ := w
  cases s with
  | nil => exact ⟨c, k, rfl, delimiter_stops h⟩
  | cons c' s => exact ⟨c', s ++ c :: k, rfl, blank_stops (hs c' List.mem_cons_self)⟩

/-- No value starts at white space. -/
theorem parseValue_isBlank {doubles : DoubleText} (fuel : ℕ) (h : isBlank c = true)
    (s : List UInt8) : parseValue doubles fuel (c :: s) = parseValue doubles fuel s := by
  have hclosing := not_isClosing_of_not_isDelimiter (not_isDelimiter_of_isBlank h)
  refine parseValue_skip fuel ?_ hclosing
  rcases blank_cases h with rfl | rfl | rfl | rfl <;>
    simp only [startsValue, JsonParse.isTrue, JsonParse.isFalse, isNull, wordAt, text,
      space, tab, lf, cr] <;> rfl

theorem parseValue_blank {doubles : DoubleText} (fuel : ℕ) (w : Blank) (s : List UInt8) :
    parseValue doubles fuel (w.chars ++ s) = parseValue doubles fuel s := by
  obtain ⟨w, hw⟩ := w
  induction w with
  | nil => rfl
  | cons c w ih =>
    have hblank := hw c List.mem_cons_self
    exact (parseValue_isBlank fuel hblank _).trans (ih fun d hd => hw d (List.mem_cons_of_mem c hd))

/-- What is no delimiter is passed over behind a value. -/
theorem resync_append (value : Json) {s : List UInt8} (hs : ∀ c ∈ s, isDelimiter c = false)
    (h : isDelimiter c = true) (k : List UInt8) :
    resync value (s ++ c :: k) = .ok value (c :: k) := by
  have hdrop := (span_append (p := fun c => !isDelimiter c) (s := s) (t := c :: k)
    (fun c hc => by simp [hs c hc]) (by simp [h])).2
  rw [resync, hdrop]

theorem Blank.not_isDelimiter (w : Blank) : ∀ c ∈ w.chars, isDelimiter c = false :=
  fun c hc => not_isDelimiter_of_isBlank (w.isBlank c hc)

/-! ## Strings and keys -/

/-- The code of a character is plain text. -/
theorem plain_of_hex (h : isDigit c = true ∨ (97 ≤ c ∧ c ≤ 102) ∨ (65 ≤ c ∧ c ≤ 70)) :
    c ≠ quote ∧ c ≠ backslash := by
  refine ⟨?_, ?_⟩ <;> rintro rfl <;> exact absurd h (by decide)

theorem parseValueString_piece (p : StringPiece) (s : List UInt8) :
    parseValueString false (p.text ++ s) =
      (parseValueString false s).map fun r => (p.text ++ r.1, r.2) := by
  cases p with
  | plain c h =>
    exact parseValueString_append (s := [c]) (List.forall_mem_singleton.mpr h.2) s
  | escape c h =>
    change parseValueString false (backslash :: c :: s) = _
    rw [parseValueString, if_pos rfl, parseValueString, Option.map_map]
    rfl
  | unicode code hlength h =>
    change parseValueString false (backslash :: 117 :: (code ++ s)) = _
    rw [parseValueString, if_pos rfl, parseValueString,
      parseValueString_append fun c hc => plain_of_hex (h c hc), Option.map_map, Option.map_map]
    rfl

/-- **A string is read to its closing quote**, escaped quotes and all. -/
theorem parseValueString_raw (s : List StringPiece) (k : List UInt8) :
    parseValueString false (raw s ++ quote :: k) = some (raw s, k) := by
  induction s with
  | nil => rfl
  | cons p s ih =>
    have hraw : raw (p :: s) = p.text ++ raw s := List.flatMap_cons
    rw [hraw, List.append_assoc, parseValueString_piece, ih]
    rfl

/-- There is no NUL in a string. -/
theorem ne_zero_of_mem_raw {s : List StringPiece} (h : c ∈ raw s) : c ≠ 0 := by
  obtain ⟨p, -, hc⟩ := List.mem_flatMap.mp h
  rintro rfl
  cases p with
  | plain c h =>
    rw [← List.mem_singleton.mp hc] at h
    exact absurd h.1 (by decide)
  | escape c h =>
    rcases List.mem_pair.mp hc with heq | rfl
    · exact absurd heq (by decide)
    · exact absurd h (by decide)
  | unicode code hlength h =>
    rcases List.mem_cons.mp hc with heq | hc
    · exact absurd heq (by decide)
    rcases List.mem_cons.mp hc with heq | hc
    · exact absurd heq (by decide)
    · exact absurd (h 0 hc) (by decide)

/-- A key is read behind its white space, up to its closing quote. -/
theorem parseKey_text {key : KeyText} (h : quote ∉ raw key.key) (k : List UInt8) :
    parseKey (key.text ++ k) = some (raw key.key, key.after.chars ++ colon :: k) := by
  have htext : key.text ++ k =
      key.before.chars ++ quote :: (raw key.key ++ quote :: (key.after.chars ++ colon :: k)) := by
    simp [KeyText.text]
  have hbefore : ∀ c ∈ key.before.chars, c ≠ quote ∧ c ≠ closeBrace := by
    intro c hc
    rcases blank_cases (key.before.isBlank c hc) with rfl | rfl | rfl | rfl <;> decide
  have hspan := span_append (p := fun c => decide (c ≠ quote ∧ c ≠ closeBrace))
    (s := key.before.chars) (t := quote :: (raw key.key ++ quote :: (key.after.chars ++ colon :: k)))
    (fun c hc => decide_eq_true (hbefore c hc)) (by simp)
  have hkey := parseKey_quoted (fun c hc => ne_of_mem_of_not_mem hc h) (key.after.chars ++ colon :: k)
  rw [parseKey, List.dropWhile_cons_of_neg (by simp)] at hkey
  rw [htext, parseKey, hspan.2]
  exact hkey

/-! ## Values -/

/-- **What is proved of a document**: its text does not start with a closing character, and it is
read as `Doc.read` says in front of white space and a delimiter. -/
structure ReadsAs (toChars : ℚ → List UInt8) (d : Doc) : Prop where
  starts : ∃ c rest, d.text = c :: rest ∧ isClosing c = false
  reads : ∀ (w : Blank) {c}, isDelimiter c = true → ∀ k, ∃ bound, ∀ fuel ≥ bound,
    parseValue (standard toChars) fuel (d.text ++ (w.chars ++ c :: k)) = scanOf d.read (c :: k)

/-- A value of one step of `parse_value`. -/
theorem reads_of_resync {s : List UInt8} {value : Json} (w : Blank) (h : isDelimiter c = true)
    (hs : ∀ fuel, parseValue (standard toChars) (fuel + 1) s = resync value (w.chars ++ c :: k)) :
    ∃ bound, ∀ fuel ≥ bound,
      parseValue (standard toChars) fuel s = scanOf (some value) (c :: k) := by
  refine ⟨1, fun fuel hfuel => ?_⟩
  obtain ⟨fuel, rfl⟩ := Nat.exists_eq_add_of_le' hfuel
  exact (hs fuel).trans (resync_append value w.not_isDelimiter h k)

theorem readsAs_null : ReadsAs toChars .null where
  starts := ⟨_, _, rfl, rfl⟩
  reads w c hc k := by
    obtain ⟨c', k', heq, hstops⟩ := exists_stops w hc k
    refine reads_of_resync w hc fun fuel => ?_
    rw [heq]
    exact parseValue_null fuel hstops k'

theorem readsAs_bool (value : Bool) : ReadsAs toChars (.bool value) where
  starts := by
    cases value <;> exact ⟨_, _, rfl, rfl⟩
  reads w c hc k := by
    obtain ⟨c', k', heq, hstops⟩ := exists_stops w hc k
    refine reads_of_resync w hc fun fuel => ?_
    rw [heq]
    cases value with
    | true => exact parseValue_true fuel hstops k'
    | false => exact parseValue_false fuel hstops k'

theorem readsAs_string (s : List StringPiece) : ReadsAs toChars (.string s) where
  starts := ⟨_, _, rfl, rfl⟩
  reads w c hc k := by
    refine reads_of_resync w hc fun fuel => ?_
    have htext : Doc.text (.string s) ++ (w.chars ++ c :: k) =
        quote :: (raw s ++ quote :: (w.chars ++ c :: k)) := by
      simp [Doc.text]
    rw [htext]
    exact parseValue_string fuel (parseValueString_raw s _)

theorem Number.exists_text (n : Number) : ∃ c rest, n.text = c :: rest ∧ isNumber c = true := by
  obtain ⟨c, s, hs⟩ := List.exists_cons_of_ne_nil n.digits.ne_nil
  have hdigit := Number.isNumber_of_isDigit (n.digits.isDigit c (hs ▸ List.mem_cons_self))
  rw [Number.text, hs]
  split_ifs
  · exact ⟨minus, _, rfl, rfl⟩
  · exact ⟨c, _, rfl, hdigit⟩

/-- **A number is read, or the scan fails.** -/
theorem readsAs_number (n : Number) : ReadsAs toChars (.number n) := by
  obtain ⟨c, rest, htext, hnumber⟩ := n.exists_text
  refine ⟨⟨c, rest, htext, not_isClosing_of_isNumber hnumber⟩, fun w d hd k => ?_⟩
  obtain ⟨c', k', heq, hstops⟩ := exists_stops w hd k
  have hparse := n.parseValueNumber_text toChars hstops k'
  have hvalue : ∀ fuel, parseValue (standard toChars) (fuel + 1) (n.text ++ c' :: k') =
      match n.read with
      | none => .invalid
      | some value => resync value (n.unscanned ++ c' :: k') := by
    intro fuel
    rw [htext, List.cons_append] at hparse ⊢
    rw [parseValue_number fuel hnumber, standard, hparse]
    cases n.read <;> rfl
  rw [← heq] at hvalue
  change ∃ bound, ∀ fuel ≥ bound, parseValue (standard toChars) fuel (n.text ++ (w.chars ++ d :: k)) =
    scanOf n.read (d :: k)
  refine ⟨1, fun fuel hfuel => ?_⟩
  obtain ⟨fuel, rfl⟩ := Nat.exists_eq_add_of_le' hfuel
  rw [hvalue fuel]
  cases n.read with
  | none => rfl
  | some value =>
    dsimp only
    rw [← List.append_assoc]
    refine resync_append value (fun c hc => ?_) hd k
    rcases List.mem_append.mp hc with hc | hc
    · exact Number.not_isDelimiter_of_mem_unscanned hc
    · exact w.not_isDelimiter c hc

/-- White space around a value is passed over. -/
theorem readsAs_spaced {d : Doc} (before after : Blank) (h : ReadsAs toChars d) :
    ReadsAs toChars (.spaced before d after) := by
  obtain ⟨⟨c, rest, htext, hclosing⟩, hreads⟩ := h
  constructor
  · rw [Doc.text]
    obtain ⟨s, hs⟩ := before
    cases s with
    | nil => exact ⟨c, rest ++ after.chars, by rw [htext]; rfl, hclosing⟩
    | cons b s =>
      refine ⟨b, _, rfl, not_isClosing_of_not_isDelimiter ?_⟩
      exact not_isDelimiter_of_isBlank (hs b List.mem_cons_self)
  · intro w c hc k
    have hblank : ∀ d ∈ after.chars ++ w.chars, isBlank d = true := by
      intro d hd
      exact (List.mem_append.mp hd).elim (after.isBlank d) (w.isBlank d)
    obtain ⟨bound, hbound⟩ := hreads ⟨after.chars ++ w.chars, hblank⟩ hc k
    refine ⟨bound, fun fuel hfuel => ?_⟩
    have hvalue := hbound fuel hfuel
    rw [List.append_assoc] at hvalue
    rw [Doc.text, List.append_assoc, List.append_assoc, parseValue_blank, hvalue]
    rfl

/-! ## The loops -/

/-- **One turn of the loop of `parse_array`.** -/
theorem parseArray_turn {first : Doc} (h : ReadsAs toChars first) (hc : isDelimiter c = true)
    (k : List UInt8) : ∃ bound, ∀ fuel ≥ bound, ∀ elements,
      parseArray (standard toChars) (fuel + 1) elements (first.text ++ c :: k) =
        match first.read with
        | none => .invalid
        | some value =>
          parseArray (standard toChars) fuel (elements ++ [value]) (skipComma (c :: k)) := by
  obtain ⟨d, rest, htext, hclosing⟩ := h.starts
  obtain ⟨bound, hbound⟩ := h.reads Blank.empty hc k
  refine ⟨bound, fun fuel hfuel elements => ?_⟩
  have hvalue : parseValue (standard toChars) fuel (first.text ++ c :: k) =
      scanOf first.read (c :: k) := hbound fuel hfuel
  have hbracket : d ≠ closeBracket := by
    rintro rfl
    exact Bool.false_ne_true hclosing.symm
  rw [htext, List.cons_append] at hvalue ⊢
  rw [parseArray, if_neg hbracket, hvalue]
  cases first.read <;> rfl

/-- **The loop of `parse_array`** reads the elements that are left. -/
theorem reads_elements {first : Doc} {others : List Doc} (hfirst : ReadsAs toChars first)
    (hothers : ∀ d ∈ others, ReadsAs toChars d) (k : List UInt8) :
    ∃ bound, ∀ fuel ≥ bound, ∀ elements,
      parseArray (standard toChars) fuel elements
          (first.text ++ (Doc.elementsText others ++ k)) =
        scanOf ((Doc.readElements (first :: others)).map fun values =>
          arrayOf (elements ++ values)) k := by
  induction others generalizing first with
  | nil =>
    obtain ⟨bound, hturn⟩ := parseArray_turn hfirst (c := closeBracket) rfl k
    refine ⟨bound + 2, fun fuel hfuel elements => ?_⟩
    obtain ⟨fuel, rfl⟩ := Nat.exists_eq_add_of_le' (Nat.le_of_add_left_le hfuel)
    rw [Doc.elementsText, List.singleton_append, hturn (fuel + 1) (by omega) elements,
      Doc.readElements, Doc.readElements]
    cases first.read <;> rfl
  | cons other others ih =>
    obtain ⟨bound, ih⟩ := ih (hothers other List.mem_cons_self)
      fun d hd => hothers d (List.mem_cons_of_mem other hd)
    obtain ⟨bound', hturn⟩ := parseArray_turn hfirst (c := comma) rfl
      (other.text ++ (Doc.elementsText others ++ k))
    refine ⟨bound + bound' + 1, fun fuel hfuel elements => ?_⟩
    obtain ⟨fuel, rfl⟩ := Nat.exists_eq_add_of_le' (Nat.le_of_add_left_le hfuel)
    have hskip : skipComma (comma :: (other.text ++ (Doc.elementsText others ++ k))) =
        other.text ++ (Doc.elementsText others ++ k) := rfl
    rw [Doc.elementsText, List.cons_append, List.append_assoc, hturn fuel (by omega) elements,
      hskip, Doc.readElements]
    cases first.read with
    | none => rfl
    | some value =>
      dsimp only
      rw [ih fuel (by omega)]
      cases Doc.readElements (other :: others) with
      | none => rfl
      | some values =>
        change scanOf (some (arrayOf (elements ++ [value] ++ values))) k = _
        rw [List.append_assoc]
        rfl

/-- **One turn of the loop of `parse_object`.** -/
theorem parseObject_turn {key : KeyText} {first : Doc} (hkey : Doc.KeyRead (raw key.key))
    (h : ReadsAs toChars first) (hc : isDelimiter c = true) (k : List UInt8) :
    ∃ bound, ∀ fuel ≥ bound, ∀ fields,
      parseObject (standard toChars) (fuel + 1) fields (key.text ++ (first.text ++ c :: k)) =
        match first.read with
        | none => .invalid
        | some value => parseObject (standard toChars) fuel
            (setField fields (raw key.key) value) (skipComma (c :: k)) := by
  obtain ⟨bound, hbound⟩ := h.reads Blank.empty hc k
  refine ⟨bound, fun fuel hfuel fields => ?_⟩
  have hvalue : parseValue (standard toChars) fuel (first.text ++ c :: k) =
      scanOf first.read (c :: k) := hbound fuel hfuel
  have hparse := parseKey_text hkey.1 (first.text ++ c :: k)
  obtain ⟨d, s, htext, hd⟩ : ∃ d s, key.text ++ (first.text ++ c :: k) = d :: s ∧
      d ≠ closeBrace := by
    obtain ⟨⟨w, hw⟩, ks, after⟩ := key
    cases w with
    | nil => exact ⟨quote, _, rfl, by decide⟩
    | cons d w =>
      refine ⟨d, _, rfl, ?_⟩
      rintro rfl
      exact Bool.false_ne_true (hw _ List.mem_cons_self)
  rw [htext] at hparse ⊢
  rw [parseObject, if_neg hd, hparse]
  dsimp only
  rw [if_neg hkey.2, parseValue_blank, parseValue_colon, hvalue]
  cases first.read <;> rfl

/-- **The loop of `parse_object`** reads the members that are left. -/
theorem reads_members {key : KeyText} {first : Doc} {others : List (KeyText × Doc)}
    (hkeys : ∀ s ∈ Doc.keysOf key others, Doc.KeyRead s) (hfirst : ReadsAs toChars first)
    (hothers : ∀ m ∈ others, ReadsAs toChars m.2) (k : List UInt8) :
    ∃ bound, ∀ fuel ≥ bound, ∀ fields : List (List UInt8 × Json),
      (fields.map (·.1) ++ Doc.keysOf key others).Nodup →
      parseObject (standard toChars) fuel fields
          (key.text ++ (first.text ++ (Doc.membersText others ++ k))) =
        scanOf ((Doc.readMembers ((key, first) :: others)).map fun members =>
          objectOf (fields ++ members)) k := by
  have hset : ∀ {key : KeyText} {fields : List (List UInt8 × Json)} {keys : List (List UInt8)}
      (value : Json), (fields.map (·.1) ++ raw key.key :: keys).Nodup →
      setField fields (raw key.key) value = fields ++ [(raw key.key, value)] := by
    intro key fields keys value hnodup
    refine setField_new value (fun c hc => ne_zero_of_mem_raw hc) fun f hf heq => ?_
    rw [List.nodup_append] at hnodup
    exact hnodup.2.2 f.1 (List.mem_map_of_mem hf) _ List.mem_cons_self heq
  induction others generalizing key first with
  | nil =>
    obtain ⟨bound, hturn⟩ := parseObject_turn (hkeys _ List.mem_cons_self) hfirst
      (c := closeBrace) rfl k
    refine ⟨bound + 2, fun fuel hfuel fields hnodup => ?_⟩
    obtain ⟨fuel, rfl⟩ := Nat.exists_eq_add_of_le' (Nat.le_of_add_left_le hfuel)
    rw [Doc.membersText, List.singleton_append, hturn (fuel + 1) (by omega) fields,
      Doc.readMembers, Doc.readMembers]
    cases first.read with
    | none => rfl
    | some value =>
      dsimp only
      rw [hset value hnodup]
      rfl
  | cons m others ih =>
    obtain ⟨key', other⟩ := m
    obtain ⟨bound, ih⟩ := ih (fun s hs => hkeys s (List.mem_cons_of_mem _ hs))
      (hothers _ List.mem_cons_self) fun m hm => hothers m (List.mem_cons_of_mem _ hm)
    obtain ⟨bound', hturn⟩ := parseObject_turn (hkeys _ List.mem_cons_self) hfirst
      (c := comma) rfl (key'.text ++ (other.text ++ (Doc.membersText others ++ k)))
    refine ⟨bound + bound' + 1, fun fuel hfuel fields hnodup => ?_⟩
    obtain ⟨fuel, rfl⟩ := Nat.exists_eq_add_of_le' (Nat.le_of_add_left_le hfuel)
    have hskip : skipComma (comma :: (key'.text ++ (other.text ++ (Doc.membersText others ++ k)))) =
        key'.text ++ (other.text ++ (Doc.membersText others ++ k)) := rfl
    rw [Doc.membersText, List.cons_append, List.append_assoc, List.append_assoc,
      hturn fuel (by omega) fields, hskip, Doc.readMembers]
    cases first.read with
    | none => rfl
    | some value =>
      have hrest : ((fields ++ [(raw key.key, value)]).map (·.1) ++
          Doc.keysOf key' others).Nodup := by
        rw [List.map_append, List.append_assoc]
        exact hnodup
      dsimp only
      rw [hset value hnodup, ih fuel (by omega) _ hrest]
      cases Doc.readMembers ((key', other) :: others) with
      | none => rfl
      | some members =>
        change scanOf (some (objectOf (fields ++ [(raw key.key, value)] ++ members))) k = _
        rw [List.append_assoc]
        rfl

/-! ## The containers -/

/-- The loop of a container reads what stands behind its bracket, whatever comes behind that. -/
def LoopReads (loop : ℕ → List UInt8 → Scan Json) (body : List UInt8) (value : Option Json) :
    Prop :=
  ∀ k, ∃ bound, ∀ fuel ≥ bound, loop fuel (body ++ k) = scanOf value k

/-- A container is a value. -/
theorem readsAs_of_loop {d : Doc} {bracket : UInt8} {body : List UInt8}
    {loop : ℕ → List UInt8 → Scan Json} (htext : d.text = bracket :: body)
    (hbracket : isClosing bracket = false)
    (hstep : ∀ fuel k, parseValue (standard toChars) (fuel + 1) (bracket :: k) =
      (loop fuel k).andThen resync)
    (h : LoopReads loop body d.read) : ReadsAs toChars d := by
  refine ⟨⟨bracket, body, htext, hbracket⟩, fun w c hc k => ?_⟩
  obtain ⟨bound, hbound⟩ := h (w.chars ++ c :: k)
  refine ⟨bound + 1, fun fuel hfuel => ?_⟩
  obtain ⟨fuel, rfl⟩ := Nat.exists_eq_add_of_le' (Nat.le_of_add_left_le hfuel)
  rw [htext, List.cons_append, hstep, hbound fuel (by omega)]
  cases d.read with
  | none => rfl
  | some value => exact resync_append value w.not_isDelimiter hc k

/-- The loop of `parse_array`, from its bracket on. -/
def arrayLoop (toChars : ℚ → List UInt8) (fuel : ℕ) (s : List UInt8) : Scan Json :=
  parseArray (standard toChars) fuel [] s

/-- The loop of `parse_object`, from its brace on. -/
def objectLoop (toChars : ℚ → List UInt8) (fuel : ℕ) (s : List UInt8) : Scan Json :=
  parseObject (standard toChars) fuel [] s

theorem readsAs_of_arrayLoop {d : Doc} {body : List UInt8} (htext : d.text = openBracket :: body)
    (h : LoopReads (arrayLoop toChars) body d.read) : ReadsAs toChars d :=
  readsAs_of_loop htext rfl (fun fuel k => parseValue_array fuel k) h

theorem readsAs_of_objectLoop {d : Doc} {body : List UInt8} (htext : d.text = openBrace :: body)
    (h : LoopReads (objectLoop toChars) body d.read) : ReadsAs toChars d :=
  readsAs_of_loop htext rfl (fun fuel k => parseValue_object fuel k) h

/-- **An empty array** is null, and one null with white space in it. -/
theorem loopReads_emptyArray (w : Blank) : LoopReads (arrayLoop toChars) (w.chars ++ [closeBracket])
    (Doc.read (.emptyArray w)) := by
  intro k
  obtain ⟨w, hw⟩ := w
  refine ⟨3, fun fuel hfuel => ?_⟩
  obtain ⟨fuel, rfl⟩ := Nat.exists_eq_add_of_le' hfuel
  cases w with
  | nil => rfl
  | cons c w =>
    have hbracket : c ≠ closeBracket := by
      rintro rfl
      exact Bool.false_ne_true (hw _ List.mem_cons_self)
    have hvalue : parseValue (standard toChars) (fuel + 2) (c :: w ++ closeBracket :: k) =
        .ok .null (closeBracket :: k) :=
      (parseValue_blank (fuel + 2) ⟨c :: w, hw⟩ _).trans (parseValue_closing (fuel + 1) rfl k)
    rw [List.cons_append] at hvalue
    dsimp only
    rw [arrayLoop, List.append_assoc, List.singleton_append, List.cons_append, parseArray,
      if_neg hbracket, hvalue]
    rfl

theorem loopReads_emptyObject (w : Blank) : LoopReads (objectLoop toChars) (w.chars ++ [closeBrace])
    (Doc.read (.emptyObject w)) := by
  intro k
  obtain ⟨w, hw⟩ := w
  refine ⟨1, fun fuel hfuel => ?_⟩
  obtain ⟨fuel, rfl⟩ := Nat.exists_eq_add_of_le' hfuel
  have hblank : ∀ c ∈ w, c ≠ quote ∧ c ≠ closeBrace := by
    intro c hc
    rcases blank_cases (hw c hc) with rfl | rfl | rfl | rfl <;> decide
  have hspan := span_append (p := fun c => decide (c ≠ quote ∧ c ≠ closeBrace)) (s := w)
    (t := closeBrace :: k) (fun c hc => decide_eq_true (hblank c hc)) (by simp)
  have hkey : parseKey (w ++ closeBrace :: k) = some ([closeBrace], k) := by
    rw [parseKey, hspan.2]
    rfl
  cases w with
  | nil => rfl
  | cons c w =>
    dsimp only
    rw [List.cons_append] at hkey
    rw [objectLoop, List.append_assoc, List.singleton_append, List.cons_append, parseObject,
      if_neg (hblank c List.mem_cons_self).2, hkey]
    rfl

theorem loopReads_array {first : Doc} {others : List Doc} (hfirst : ReadsAs toChars first)
    (hothers : ∀ d ∈ others, ReadsAs toChars d) :
    LoopReads (arrayLoop toChars) (first.text ++ Doc.elementsText others)
      (Doc.read (.array first others)) := by
  intro k
  obtain ⟨bound, hbound⟩ := reads_elements hfirst hothers k
  refine ⟨bound, fun fuel hfuel => ?_⟩
  rw [arrayLoop, List.append_assoc, hbound fuel hfuel, Doc.readElements, Doc.read]
  cases first.read with
  | none => rfl
  | some value => cases Doc.readElements others <;> rfl

theorem loopReads_object {key : KeyText} {first : Doc} {others : List (KeyText × Doc)}
    (hkeys : ∀ s ∈ Doc.keysOf key others, Doc.KeyRead s)
    (hdistinct : (Doc.keysOf key others).Nodup) (hfirst : ReadsAs toChars first)
    (hothers : ∀ m ∈ others, ReadsAs toChars m.2) :
    LoopReads (objectLoop toChars) (key.text ++ (first.text ++ Doc.membersText others))
      (Doc.read (.object key first others)) := by
  intro k
  obtain ⟨bound, hbound⟩ := reads_members hkeys hfirst hothers k
  refine ⟨bound, fun fuel hfuel => ?_⟩
  rw [objectLoop, List.append_assoc, List.append_assoc, hbound fuel hfuel [] hdistinct,
    Doc.readMembers, Doc.read]
  cases first.read with
  | none => rfl
  | some value => cases Doc.readMembers others <;> rfl

/-! ## The documents -/

namespace Doc

/-- What holds of the keys of a document holds of the keys of its parts. -/
theorem Part.trans {d d' d'' : Doc} (h : Part d d') (h' : Part d' d'') : Part d d'' := by
  induction h with
  | self => exact h'
  | spaced before after _ ih => exact .spaced before after (ih h')
  | first others _ ih => exact .first others (ih h')
  | other first hmem _ ih => exact .other first hmem (ih h')
  | firstMember key others _ ih => exact .firstMember key others (ih h')
  | otherMember key first hmem _ ih => exact .otherMember key first hmem (ih h')

theorem KeysRead.part {d d' : Doc} (h : KeysRead d) (hpart : Part d d') : KeysRead d' :=
  fun key first others hobject => h key first others (hpart.trans hobject)

theorem KeysDistinct.part {d d' : Doc} (h : KeysDistinct d) (hpart : Part d d') :
    KeysDistinct d' :=
  fun key first others hobject => h key first others (hpart.trans hobject)

end Doc

open Doc (Part KeysRead KeysDistinct)

/-- **A value is read as `Doc.read` says.** -/
theorem readsAs (d : Doc) (hkeys : KeysRead d) (hdistinct : KeysDistinct d) :
    ReadsAs toChars d := by
  induction d with
  | null => exact readsAs_null
  | bool value => exact readsAs_bool value
  | number n => exact readsAs_number n
  | string s => exact readsAs_string s
  | spaced before value after ih =>
    have hpart : Part (.spaced before value after) value := .spaced before after (.self value)
    exact readsAs_spaced before after (ih (hkeys.part hpart) (hdistinct.part hpart))
  | emptyArray blank => exact readsAs_of_arrayLoop rfl (loopReads_emptyArray blank)
  | array first others hfirst hothers =>
    refine readsAs_of_arrayLoop rfl (loopReads_array ?_ fun d hd => ?_)
    · have hpart : Part (.array first others) first := .first others (.self first)
      exact hfirst (hkeys.part hpart) (hdistinct.part hpart)
    · have hpart : Part (.array first others) d := .other first hd (.self d)
      exact hothers d hd (hkeys.part hpart) (hdistinct.part hpart)
  | emptyObject blank => exact readsAs_of_objectLoop rfl (loopReads_emptyObject blank)
  | object key first others hfirst hothers =>
    refine readsAs_of_objectLoop rfl (loopReads_object (hkeys _ _ _ (.self _))
      (hdistinct _ _ _ (.self _)) ?_ fun m hm => ?_)
    · have hpart : Part (.object key first others) first := .firstMember key others (.self first)
      exact hfirst (hkeys.part hpart) (hdistinct.part hpart)
    · have hpart : Part (.object key first others) m.2 := .otherMember key first hm (.self m.2)
      exact hothers m hm (hkeys.part hpart) (hdistinct.part hpart)

/-- What `parse` returns for a scan: the value, or null and not valid. -/
theorem resultOf_scanOf (value : Option Json) (rest : List UInt8) :
    resultOf (scanOf value rest) = some (value.getD .null, value.isSome) := by
  cases value <;> rfl

/-- White space in front of the root is passed over. -/
theorem dropWhile_blank (w : Blank) {bracket : UInt8}
    (h : ¬ (bracket ≠ openBrace ∧ bracket ≠ openBracket)) (k : List UInt8) :
    (w.chars ++ bracket :: k).dropWhile (fun c => c ≠ openBrace ∧ c ≠ openBracket) = bracket :: k := by
  have hblank : ∀ c ∈ w.chars, decide (c ≠ openBrace ∧ c ≠ openBracket) = true := by
    intro c hc
    rcases blank_cases (w.isBlank c hc) with rfl | rfl | rfl | rfl <;> decide
  exact (span_append hblank (by simpa using h)).2

/-- **The root of a document**: white space, a bracket, and what the loop of the container reads. -/
theorem exists_root {d : Doc} (hroot : d.IsContainer) (hkeys : KeysRead d)
    (hdistinct : KeysDistinct d) : ∃ (w : Blank) (body k : List UInt8),
      (d.text = w.chars ++ openBracket :: (body ++ k) ∧ LoopReads (arrayLoop toChars) body d.read) ∨
      (d.text = w.chars ++ openBrace :: (body ++ k) ∧ LoopReads (objectLoop toChars) body d.read) := by
  have hpart : ∀ {d'}, Part d d' → ReadsAs toChars d' :=
    fun h => readsAs _ (hkeys.part h) (hdistinct.part h)
  induction d with
  | null => exact hroot.elim
  | bool value => exact hroot.elim
  | number n => exact hroot.elim
  | string s => exact hroot.elim
  | spaced before value after ih =>
    have hvalue : Part (.spaced before value after) value := .spaced before after (.self value)
    obtain ⟨w, body, k, h⟩ := ih hroot (hkeys.part hvalue) (hdistinct.part hvalue)
      fun h => hpart (hvalue.trans h)
    have hblank : ∀ c ∈ before.chars ++ w.chars, isBlank c = true :=
      fun c hc => (List.mem_append.mp hc).elim (before.isBlank c) (w.isBlank c)
    refine ⟨⟨before.chars ++ w.chars, hblank⟩, body, k ++ after.chars, ?_⟩
    refine h.imp (fun h => ⟨?_, h.2⟩) fun h => ⟨?_, h.2⟩
    · rw [Doc.text, h.1]
      simp
    · rw [Doc.text, h.1]
      simp
  | emptyArray blank =>
    exact ⟨.empty, _, [], Or.inl ⟨by simp [Doc.text, Blank.empty], loopReads_emptyArray blank⟩⟩
  | array first others =>
    refine ⟨.empty, _, [], Or.inl ⟨?_, loopReads_array (hpart (.first others (.self first)))
      fun d hd => hpart (.other first hd (.self d))⟩⟩
    simp [Doc.text, Blank.empty]
  | emptyObject blank =>
    exact ⟨.empty, _, [], Or.inr ⟨by simp [Doc.text, Blank.empty], loopReads_emptyObject blank⟩⟩
  | object key first others =>
    refine ⟨.empty, _, [], Or.inr ⟨?_, loopReads_object (hkeys _ _ _ (.self _))
      (hdistinct _ _ _ (.self _)) (hpart (.firstMember key others (.self first)))
      fun m hm => hpart (.otherMember key first hm (.self m.2))⟩⟩
    simp [Doc.text, Blank.empty]

/-- A text with a bracket behind white space is left to the loop of its container. -/
theorem parse_root {doubles : DoubleText} (fuel : ℕ) (w : Blank) {bracket : UInt8}
    (h : ¬ (bracket ≠ openBrace ∧ bracket ≠ openBracket)) (k : List UInt8) :
    parse doubles fuel (w.chars ++ bracket :: k) =
      resultOf (if bracket = openBrace then parseObject doubles fuel [] k
        else parseArray doubles fuel [] k) := by
  have hdrop := dropWhile_blank w h k
  rw [parse]
  · rw [hdrop]
  · simp

/-- **`parse` makes of a document what `Doc.read` says**, or is not valid. -/
theorem parse_text {d : Doc} (hroot : d.IsContainer) (hkeys : KeysRead d)
    (hdistinct : KeysDistinct d) : ∃ bound, ∀ fuel ≥ bound,
      parse (standard toChars) fuel d.text = some (d.read.getD .null, d.read.isSome) := by
  obtain ⟨w, body, k, h⟩ := @exists_root toChars d hroot hkeys hdistinct
  rcases h with ⟨htext, hloop⟩ | ⟨htext, hloop⟩
  · obtain ⟨bound, hbound⟩ := hloop k
    refine ⟨bound, fun fuel hfuel => ?_⟩
    rw [htext, parse_root fuel w (by decide), if_neg (by decide), ← resultOf_scanOf d.read k,
      ← hbound fuel hfuel]
    rfl
  · obtain ⟨bound, hbound⟩ := hloop k
    refine ⟨bound, fun fuel hfuel => ?_⟩
    rw [htext, parse_root fuel w (by decide), if_pos rfl, ← resultOf_scanOf d.read k,
      ← hbound fuel hfuel]
    rfl

end JsonText

end TradingEngine
