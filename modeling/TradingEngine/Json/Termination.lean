import TradingEngine.Json.Parse

/-!
# Json/Termination — the texts the scan comes to an end on

`parse_value` reads nothing at a closing character, and leaves it to its caller.  `parse_object`
reads a `'}'` and scans past a `']'`; `parse_array` reads a `']'`, but at a `'}'` its loop goes
round for ever.

`Scanner` is a pushdown machine that reads the text once, a character at a time, and remembers which
brackets are open.  It jams where the scan is stuck: `terminates_iff_not_jams`.
-/

namespace TradingEngine

open Ascii

/-! ## The machine -/

/-- An open bracket. -/
inductive Container
  | object
  | array
  deriving DecidableEq

/-- What is being looked for inside the innermost bracket. -/
inductive ScanPhase
  | value
  | key
  | inKey (read : List UInt8)
  | inString (escaped : Bool)
  | delimiter
  deriving DecidableEq

/-- The machine: running inside some brackets, finished, or jammed. -/
inductive Scanner
  | at (top : Container) (outer : List Container) (phase : ScanPhase)
  | finished
  | jammed
  deriving DecidableEq

namespace Scanner

open JsonParse

variable (doubles : DoubleText)

/-- The innermost bracket is closed. -/
def close : List Container → Scanner
  | [] => finished
  | top :: outer => .at top outer .delimiter

/-- What a container looks for first. -/
def entry : Container → ScanPhase
  | .object => .key
  | .array => .value

/-- A closing character, or one that is passed over.  No `'}'` closes an array. -/
def stepClosing (top : Container) (outer : List Container) (phase : ScanPhase) (c : UInt8) :
    Scanner :=
  if c = closeBrace then
    match top with
    | .object => close outer
    | .array => jammed
  else if c = closeBracket then
    match top with
    | .object => .at .object outer .key
    | .array => close outer
  else .at top outer phase

/-- The start of a value. -/
def stepValue (top : Container) (outer : List Container) (c : UInt8) (rest : List UInt8) :
    Scanner :=
  if c = quote then .at top outer (.inString false)
  else if isNumber c then
    if (parseValueNumber doubles (c :: rest)).isSome then .at top outer .delimiter else finished
  else if isTrue (c :: rest) ∨ isFalse (c :: rest) ∨ isNull (c :: rest) then
    .at top outer .delimiter
  else if c = openBrace then .at .object (top :: outer) .key
  else if c = openBracket then .at .array (top :: outer) .value
  else stepClosing top outer .value c

/-- One character. -/
def step : Scanner → UInt8 → List UInt8 → Scanner
  | .at top outer .value, c, rest => stepValue doubles top outer c rest
  | .at _ outer .key, c, _ =>
    if c = quote then .at .object outer (.inKey [])
    else if c = closeBrace then close outer
    else .at .object outer .key
  | .at _ outer (.inKey read), c, _ =>
    if c ≠ quote then .at .object outer (.inKey (read ++ [c]))
    else if read = [closeBrace] then close outer
    else .at .object outer .value
  | .at top outer (.inString true), _, _ => .at top outer (.inString false)
  | .at top outer (.inString false), c, _ =>
    if c = backslash then .at top outer (.inString true)
    else if c = quote then .at top outer .delimiter
    else .at top outer (.inString false)
  | .at top outer .delimiter, c, _ =>
    if c = comma then .at top outer (entry top) else stepClosing top outer .delimiter c
  | finished, _, _ => finished
  | jammed, _, _ => jammed

/-- The machine jams on a text. -/
def jams : Scanner → List UInt8 → Bool
  | m, [] => m = jammed
  | m, c :: rest => jams (m.step doubles c rest) rest

/-- **The condition.**  From the first opening bracket on, no `'}'` is met while the innermost open
bracket is a `'['`. -/
def Jams (s : List UInt8) : Prop :=
  match s.dropWhile fun c => c ≠ openBrace ∧ c ≠ openBracket with
  | [] => False
  | c :: rest =>
    (if c = openBrace then Scanner.at .object [] .key else .at .array [] .value).jams doubles rest

instance (s : List UInt8) : Decidable (Jams doubles s) := by
  rw [Jams]
  split <;> infer_instance

variable {doubles} {top : Container} {outer : List Container} {s : List UInt8} {c : UInt8}

@[simp] theorem jams_finished (s : List UInt8) : jams doubles finished s = false := by
  induction s with
  | nil => rfl
  | cons c s ih => exact ih

@[simp] theorem jams_jammed (s : List UInt8) : jams doubles jammed s = true := by
  induction s with
  | nil => rfl
  | cons c s ih => exact ih

/-! ## The parts of a text -/

theorem isClosing_iff : isClosing c = true ↔ c = closeBrace ∨ c = closeBracket := by
  simp [isClosing]

/-- Characters that start no value are passed over. -/
theorem jams_skipToValue (s : List UInt8) :
    jams doubles (.at top outer .value) s =
      jams doubles (.at top outer .value) (skipToValue s) := by
  induction s with
  | nil => rfl
  | cons c s ih =>
    rw [skipToValue]
    split_ifs with h
    · rfl
    · have hstep : step doubles (.at top outer .value) c s = .at top outer .value := by
        simp only [startsValue, isClosing, decide_eq_true_eq, not_or] at h
        obtain ⟨⟨hq, ho, hb, hn, ht, hf, hnull⟩, hc, hcb⟩ := h
        simp only [step, stepValue, stepClosing, hq, ho, hb, hn, ht, hf, hnull, hc, hcb, if_false]
        rfl
      rw [jams, hstep, ih]

/-- Characters that are no delimiter are passed over after a value. -/
theorem jams_append_delimiter {p : List UInt8} (h : ∀ c ∈ p, isDelimiter c = false)
    (s : List UInt8) :
    jams doubles (.at top outer .delimiter) (p ++ s) =
      jams doubles (.at top outer .delimiter) s := by
  induction p with
  | nil => rfl
  | cons c p ih =>
    have hc := h c List.mem_cons_self
    simp only [isDelimiter, isClosing, decide_eq_false_iff_not, decide_eq_true_eq, not_or] at hc
    have hstep : step doubles (.at top outer .delimiter) c (p ++ s) = .at top outer .delimiter := by
      simp only [step, stepClosing, hc, if_false]
    rw [List.cons_append, jams, hstep, ih fun c' hc' => h c' (List.mem_cons_of_mem c hc')]

theorem jams_resync (s : List UInt8) :
    jams doubles (.at top outer .delimiter) s =
      jams doubles (.at top outer .delimiter) (s.dropWhile fun c => !isDelimiter c) := by
  conv_lhs => rw [← List.takeWhile_append_dropWhile (p := fun c => !isDelimiter c) (l := s)]
  refine jams_append_delimiter (fun c hc => ?_) _
  simpa using List.all_eq_true.mp List.all_takeWhile c hc

variable (doubles top outer) in
/-- A string is read to its closing quote. -/
theorem jams_parseValueString (escaped : Bool) (s : List UInt8) :
    match parseValueString escaped s with
    | none => jams doubles (.at top outer (.inString escaped)) s = false
    | some (_, rest) => jams doubles (.at top outer (.inString escaped)) s =
        jams doubles (.at top outer .delimiter) rest ∧ rest.length < s.length := by
  induction s generalizing escaped with
  | nil => cases escaped <;> rfl
  | cons c s ih =>
    have hnext : ∀ next, jams doubles (.at top outer (.inString escaped)) (c :: s) =
        jams doubles (.at top outer (.inString next)) s →
        match (parseValueString next s).map fun r => (c :: r.1, r.2) with
        | none => jams doubles (.at top outer (.inString escaped)) (c :: s) = false
        | some (_, rest) => jams doubles (.at top outer (.inString escaped)) (c :: s) =
            jams doubles (.at top outer .delimiter) rest ∧ rest.length < (c :: s).length := by
      intro next hstep
      have hs := ih next
      rw [hstep]
      cases hparse : parseValueString next s with
      | none => rwa [hparse] at hs
      | some r =>
        rw [hparse] at hs
        exact ⟨hs.1, hs.2.trans (Nat.lt_succ_self _)⟩
    cases escaped with
    | true => exact hnext false rfl
    | false =>
      rw [parseValueString]
      split_ifs with hback hquote
      · exact hnext true (by rw [jams, step, if_pos hback])
      · rw [jams, step, if_neg hback, if_pos hquote]
        exact ⟨rfl, Nat.lt_succ_self _⟩
      · exact hnext false (by rw [jams, step, if_neg hback, if_neg hquote])

variable (doubles outer) in
/-- A key is read to its closing quote. -/
theorem jams_inKey (read s : List UInt8) :
    match s.dropWhile fun c => c ≠ quote with
    | [] => jams doubles (.at .object outer (.inKey read)) s = false
    | _ :: rest => jams doubles (.at .object outer (.inKey read)) s =
        (if read ++ s.takeWhile (fun c => c ≠ quote) = [closeBrace] then
          jams doubles (close outer) rest
        else jams doubles (.at .object outer .value) rest) ∧ rest.length < s.length := by
  induction s generalizing read with
  | nil => rfl
  | cons c s ih =>
    by_cases hc : c = quote
    · rw [List.dropWhile_cons_of_neg (by simpa using hc),
        List.takeWhile_cons_of_neg (by simpa using hc), List.append_nil]
      refine ⟨?_, Nat.lt_succ_self _⟩
      rw [jams, step, if_neg (not_not.mpr hc)]
      split_ifs <;> rfl
    · have hs := ih (read ++ [c])
      rw [List.dropWhile_cons_of_pos (by simpa using hc),
        List.takeWhile_cons_of_pos (by simpa using hc), jams, step, if_pos hc]
      split at hs
      · exact hs
      · rw [List.append_assoc, List.singleton_append] at hs
        exact ⟨hs.1, hs.2.trans (Nat.lt_succ_self _)⟩

/-- What is before a key is passed over. -/
theorem jams_skipToKey (s : List UInt8) :
    jams doubles (.at .object outer .key) s = jams doubles (.at .object outer .key)
      (s.dropWhile fun c => c ≠ quote ∧ c ≠ closeBrace) := by
  induction s with
  | nil => rfl
  | cons c s ih =>
    by_cases hc : c ≠ quote ∧ c ≠ closeBrace
    · rw [List.dropWhile_cons_of_pos (by simpa using hc), ← ih, jams, step, if_neg hc.1,
        if_neg hc.2]
    · rw [List.dropWhile_cons_of_neg (by simpa using hc)]

variable (doubles outer) in
/-- **`parse_key`** reads what the machine reads. -/
theorem jams_parseKey (s : List UInt8) :
    match parseKey s with
    | none => jams doubles (.at .object outer .key) s = false
    | some (key, rest) => jams doubles (.at .object outer .key) s =
        (if key = [closeBrace] then jams doubles (close outer) rest
          else jams doubles (.at .object outer .value) rest) ∧ rest.length < s.length := by
  have hlength : (s.dropWhile fun c => c ≠ quote ∧ c ≠ closeBrace).length ≤ s.length :=
    (List.dropWhile_suffix _).length_le
  rw [parseKey, jams_skipToKey]
  cases hskip : s.dropWhile fun c => c ≠ quote ∧ c ≠ closeBrace with
  | nil => rfl
  | cons c rest =>
    rw [hskip, List.length_cons] at hlength
    have hc : ¬ (c ≠ quote ∧ c ≠ closeBrace) := by
      have := List.head?_dropWhile_not (fun c => c ≠ quote ∧ c ≠ closeBrace) s
      rw [hskip] at this
      simpa using this
    by_cases hbrace : c = closeBrace
    · subst hbrace
      refine ⟨?_, hlength⟩
      rfl
    · have hquote : c = quote := by
        by_contra hq
        exact hc ⟨hq, hbrace⟩
      subst hquote
      have hkey := jams_inKey doubles outer [] rest
      simp only [hbrace, if_false]
      rw [show jams doubles (.at .object outer .key) (quote :: rest) =
        jams doubles (.at .object outer (.inKey [])) rest from rfl]
      cases hrest : rest.dropWhile fun c => decide (c ≠ quote) with
      | nil =>
        rw [hrest] at hkey
        exact hkey
      | cons d rest' =>
        rw [hrest] at hkey
        exact ⟨hkey.1, hkey.2.trans hlength⟩

/-- The characters of a number are no delimiters. -/
theorem numberSpan_append (s : List UInt8) : (numberSpan s).1 ++ (numberSpan s).2 = s := by
  induction s with
  | nil => rfl
  | cons c s ih =>
    rw [numberSpan]
    split_ifs
    · exact congrArg (List.cons c) ih
    · rfl

theorem not_isDelimiter_of_mem_numberSpan {s : List UInt8} :
    ∀ c ∈ (numberSpan s).1, isDelimiter c = false := by
  induction s with
  | nil => exact fun c hc => absurd hc List.not_mem_nil
  | cons c s ih =>
    rw [numberSpan]
    split_ifs with h
    · refine List.forall_mem_cons.mpr ⟨?_, ih⟩
      have hne : ∀ d : UInt8, isNumber d = false → d ≠ dot → d ≠ 101 → c ≠ d := by
        rintro d hnumber hdot he rfl
        rcases h with h | h | h
        · exact Bool.false_ne_true (hnumber.symm.trans h)
        · exact hdot h
        · exact he h.1
      have hcomma := hne comma (by decide) (by decide) (by decide)
      have hbrace := hne closeBrace (by decide) (by decide) (by decide)
      have hbracket := hne closeBracket (by decide) (by decide) (by decide)
      simp [isDelimiter, isClosing, hcomma, hbrace, hbracket]
    · exact fun c hc => absurd hc List.not_mem_nil

variable (top outer) in
/-- **`parse_value_number`** reads what the machine passes over. -/
theorem jams_parseValueNumber {s : List UInt8} {value : Json} {rest : List UInt8}
    (h : parseValueNumber doubles s = some (value, rest)) :
    jams doubles (.at top outer .delimiter) s = jams doubles (.at top outer .delimiter) rest ∧
      rest.length < s.length := by
  have hne : (numberSpan s).1 ≠ [] := by
    intro hnil
    rw [parseValueNumber, if_pos hnil] at h
    exact Option.some_ne_none _ h.symm
  have hrest : rest = (numberSpan s).2 := by
    rw [parseValueNumber, if_neg hne] at h
    split_ifs at h
    · obtain ⟨x, -, hx⟩ := Option.map_eq_some_iff.mp h
      exact (Prod.mk.inj hx).2.symm
    · obtain ⟨n, -, hn⟩ := Option.map_eq_some_iff.mp h
      exact (Prod.mk.inj hn).2.symm
  have happend := numberSpan_append s
  rw [hrest]
  refine ⟨?_, ?_⟩
  · conv_lhs => rw [← happend]
    exact jams_append_delimiter not_isDelimiter_of_mem_numberSpan _
  · have hpos := List.length_pos_iff.mpr hne
    have hlength := congrArg List.length happend
    rw [List.length_append] at hlength
    omega

/-- The rest of a word after its first letter is passed over. -/
theorem jams_word {word : List UInt8} {stop : UInt8 → Bool} {s : List UInt8}
    (h : wordAt word stop (c :: s) = true) (hne : word ≠ [])
    (hword : ∀ c ∈ word, isDelimiter c = false) :
    jams doubles (.at top outer .delimiter) s =
      jams doubles (.at top outer .delimiter) (s.drop (word.length - 1)) := by
  obtain ⟨d, word, rfl⟩ := List.exists_cons_of_ne_nil hne
  simp only [wordAt, decide_eq_true_eq] at h
  obtain ⟨-, t, ht⟩ := List.cons_prefix_cons.mp (List.isPrefixOf_iff_prefix.mp h.1)
  rw [← ht, List.length_cons, Nat.add_sub_cancel, List.drop_left]
  exact jams_append_delimiter (fun c hc => hword c (List.mem_cons_of_mem d hc)) t

/-- **After a value** a comma is read, and a closing character is left to the loop. -/
theorem jams_skipComma (h : isDelimiter c = true) (s : List UInt8) :
    jams doubles (.at top outer .delimiter) (c :: s) =
      jams doubles (.at top outer (entry top)) (skipComma (c :: s)) := by
  by_cases hcomma : c = comma
  · subst hcomma
    cases top <;> rfl
  · have hskip : skipComma (c :: s) = c :: s := by
      rw [skipComma, if_neg]
      simpa using hcomma
    have hclosing : c = closeBrace ∨ c = closeBracket := by
      simpa [isDelimiter, isClosing, hcomma] using h
    rw [hskip]
    cases top <;> rcases hclosing with rfl | rfl <;> rfl

/-! ## The scan and the machine -/

/-- The outcome of a loop against the machine: a scan that is done leaves the machine outside the
bracket, one that fails is no jam, and one still running with enough fuel is. -/
def LoopAgrees (enough : Prop) (out : Scan Json) (jam : Bool) (next : List UInt8 → Bool)
    (s : List UInt8) : Prop :=
  match out with
  | .running => enough → jam = true
  | .invalid => jam = false
  | .ok _ rest => jam = next rest ∧ rest.length < s.length

/-- The same for a value, which ends at a delimiter.  Only at a closing character is nothing
read. -/
def ValueAgrees (enough : Prop) (out : Scan Json) (jam : Bool) (next : List UInt8 → Bool)
    (s : List UInt8) : Prop :=
  match out with
  | .running => enough → jam = true
  | .invalid => jam = false
  | .ok _ rest => jam = next rest ∧ ∃ c t, rest = c :: t ∧ isDelimiter c = true ∧
      (rest.length < s.length ∨ rest = s ∧ isClosing c = true)

/-- `parse_object` with the machine inside an object. -/
def ObjectAgrees (doubles : DoubleText) (fuel : ℕ) : Prop :=
  ∀ outer fields s, LoopAgrees (2 * s.length + 2 ≤ fuel) (parseObject doubles fuel fields s)
    (jams doubles (.at .object outer .key) s) (jams doubles (close outer)) s

/-- `parse_array` with the machine inside an array. -/
def ArrayAgrees (doubles : DoubleText) (fuel : ℕ) : Prop :=
  ∀ outer elements s, LoopAgrees (2 * s.length + 2 ≤ fuel) (parseArray doubles fuel elements s)
    (jams doubles (.at .array outer .value) s) (jams doubles (close outer)) s

/-- `parse_value` with the machine looking for a value. -/
def ValueAgreesAt (doubles : DoubleText) (fuel : ℕ) : Prop :=
  ∀ top outer s, ValueAgrees (2 * s.length + 1 ≤ fuel) (parseValue doubles fuel s)
    (jams doubles (.at top outer .value) s) (jams doubles (.at top outer .delimiter)) s

theorem length_skipComma (s : List UInt8) : (skipComma s).length ≤ s.length := by
  rw [skipComma]
  split_ifs
  · rw [List.length_tail]
    omega
  · exact le_rfl

/-- A turn of a loop agrees as the rest of the loop does. -/
theorem LoopAgrees.of_rest {enough enough' : Prop} {out : Scan Json} {jam jam' : Bool}
    {next : List UInt8 → Bool} {s s' : List UInt8} (h : LoopAgrees enough out jam next s)
    (henough : enough' → enough) (hjam : jam' = jam) (hle : s.length ≤ s'.length) :
    LoopAgrees enough' out jam' next s' := by
  cases out with
  | running => exact fun henough' => hjam.trans (h (henough henough'))
  | invalid => exact hjam.trans h
  | ok value rest => exact ⟨hjam.trans h.1, h.2.trans_le hle⟩

theorem objectAgrees_succ {fuel : ℕ} (hobject : ObjectAgrees doubles fuel)
    (hvalue : ValueAgreesAt doubles fuel) : ObjectAgrees doubles (fuel + 1) := by
  intro outer fields s
  cases s with
  | nil => rfl
  | cons c rest =>
    rw [parseObject]
    by_cases hclose : c = closeBrace
    · subst hclose
      exact ⟨rfl, Nat.lt_succ_self _⟩
    simp only [hclose, if_false]
    have hkey := jams_parseKey doubles outer (c :: rest)
    cases hparse : parseKey (c :: rest) with
    | none =>
      rw [hparse] at hkey
      exact hkey
    | some r =>
      obtain ⟨key, afterKey⟩ := r
      rw [hparse] at hkey
      obtain ⟨hkey, hlength⟩ := hkey
      by_cases hbrace : key = [closeBrace]
      · simp only [hbrace, if_true] at hkey ⊢
        exact ⟨hkey, hlength⟩
      simp only [hbrace, if_false] at hkey ⊢
      have hval := hvalue .object outer afterKey
      cases hscan : parseValue doubles fuel afterKey with
      | running =>
        rw [hscan] at hval
        exact fun henough => hkey.trans (hval (by omega))
      | invalid =>
        rw [hscan] at hval
        exact hkey.trans hval
      | ok value afterValue =>
        rw [hscan] at hval
        obtain ⟨hjam, c', t, rfl, hdelimiter, hless⟩ := hval
        have hle : (c' :: t).length ≤ afterKey.length := by
          rcases hless with hless | ⟨heq, -⟩
          · exact hless.le
          · rw [heq]
        have hskip := length_skipComma (c' :: t)
        have hloop := hobject outer (setField fields key value) (skipComma (c' :: t))
        have hjams := hkey.trans (hjam.trans (jams_skipComma hdelimiter t))
        exact hloop.of_rest (fun henough => by omega) hjams (by omega)

/-- **The loop of `parse_array` is stuck at a `'}'`.** -/
theorem parseArray_closeBrace (fuel : ℕ) (elements : List Json) (s : List UInt8) :
    parseArray doubles fuel elements (closeBrace :: s) = .running := by
  induction fuel using Nat.strong_induction_on generalizing elements with
  | h fuel ih =>
    rcases fuel with _ | _ | fuel
    · rfl
    · rfl
    · have hvalue : parseValue doubles (fuel + 1) (closeBrace :: s) =
          .ok .null (closeBrace :: s) := rfl
      have hskip : skipComma (closeBrace :: s) = closeBrace :: s := rfl
      rw [parseArray]
      simp only [show closeBrace ≠ closeBracket by decide, if_false, hvalue, Scan.andThen, hskip]
      exact ih (fuel + 1) (Nat.lt_succ_self _) _

theorem arrayAgrees_succ {fuel : ℕ} (harray : ArrayAgrees doubles fuel)
    (hvalue : ValueAgreesAt doubles fuel) : ArrayAgrees doubles (fuel + 1) := by
  intro outer elements s
  cases s with
  | nil => rfl
  | cons c rest =>
    by_cases hbrace : c = closeBrace
    · subst hbrace
      rw [parseArray_closeBrace]
      exact fun _ => jams_jammed rest
    rw [parseArray]
    by_cases hclose : c = closeBracket
    · subst hclose
      exact ⟨rfl, Nat.lt_succ_self _⟩
    simp only [hclose, if_false]
    have hval := hvalue .array outer (c :: rest)
    cases hscan : parseValue doubles fuel (c :: rest) with
    | running =>
      rw [hscan] at hval
      exact fun henough => hval (by omega)
    | invalid =>
      rw [hscan] at hval
      exact hval
    | ok value afterValue =>
      rw [hscan] at hval
      obtain ⟨hjam, c', t, rfl, hdelimiter, hless⟩ := hval
      -- the value is not at a closing character, so something has been read
      have hlt : (c' :: t).length < (c :: rest).length := by
        rcases hless with hless | ⟨heq, hclosing⟩
        · exact hless
        · rw [List.cons.injEq] at heq
          rcases isClosing_iff.mp hclosing with h | h
          · exact absurd (heq.1.symm.trans h) hbrace
          · exact absurd (heq.1.symm.trans h) hclose
      have hskip := length_skipComma (c' :: t)
      have hloop := harray outer (elements ++ [value]) (skipComma (c' :: t))
      have hjams := hjam.trans (jams_skipComma hdelimiter t)
      exact hloop.of_rest (fun henough => by omega) hjams (by omega)

theorem skipToValue_suffix (s : List UInt8) : skipToValue s <:+ s := by
  induction s with
  | nil => exact List.suffix_refl _
  | cons c s ih =>
    rw [skipToValue]
    split_ifs
    · exact List.suffix_refl _
    · exact ih.trans (List.suffix_cons c s)

theorem skipToValue_head {s : List UInt8} {rest : List UInt8} (h : skipToValue s = c :: rest) :
    startsValue (c :: rest) = true ∨ isClosing c = true := by
  induction s with
  | nil => exact absurd h.symm (List.cons_ne_nil _ _)
  | cons d s ih =>
    rw [skipToValue] at h
    split_ifs at h with hstop
    · obtain ⟨rfl, rfl⟩ := List.cons.inj h
      exact hstop
    · exact ih h

/-- A value that has been read, and the delimiter after it. -/
theorem valueAgrees_resync {enough : Prop} {jam : Bool} {rest : List UInt8} (value : Json)
    (hjam : jam = jams doubles (.at top outer .delimiter) rest) (hlength : rest.length < s.length) :
    ValueAgrees enough (resync value rest) jam (jams doubles (.at top outer .delimiter)) s := by
  have hle : (rest.dropWhile fun c => !isDelimiter c).length ≤ rest.length :=
    (List.dropWhile_suffix _).length_le
  have hjam := hjam.trans (jams_resync rest)
  rw [resync]
  cases hdrop : rest.dropWhile fun c => !isDelimiter c with
  | nil =>
    rw [hdrop] at hjam
    exact hjam
  | cons c t =>
    rw [hdrop] at hjam hle
    have hc : isDelimiter c = true := by
      have := List.head?_dropWhile_not (fun c => !isDelimiter c) rest
      rw [hdrop] at this
      simpa using this
    exact ⟨hjam, c, t, rfl, hc, Or.inl (hle.trans_lt hlength)⟩

/-- A container that has been read, and the delimiter after it. -/
theorem valueAgrees_loop {enough enough' : Prop} {out : Scan Json} {jam : Bool} {rest : List UInt8}
    (h : LoopAgrees enough out jam (jams doubles (close (top :: outer))) rest)
    (henough : enough' → enough) (hlength : rest.length < s.length) :
    ValueAgrees enough' (out.andThen resync) jam (jams doubles (.at top outer .delimiter)) s := by
  cases out with
  | running => exact fun h' => h (henough h')
  | invalid => exact h
  | ok value rest' => exact valueAgrees_resync value h.1 (h.2.trans hlength)

theorem valueAgreesAt_succ {fuel : ℕ} (hobject : ObjectAgrees doubles fuel)
    (harray : ArrayAgrees doubles fuel) : ValueAgreesAt doubles (fuel + 1) := by
  intro top outer s
  have hsuffix := skipToValue_suffix s
  rw [parseValue, jams_skipToValue]
  cases hskip : skipToValue s with
  | nil => rfl
  | cons c rest =>
    rw [hskip] at hsuffix
    have hle := hsuffix.length_le
    have hlength : rest.length < s.length := hle
    dsimp only
    by_cases hclosing : isClosing c = true
    · rw [if_pos hclosing]
      refine ⟨?_, c, rest, rfl, by simp [isDelimiter, hclosing], ?_⟩
      · rcases isClosing_iff.mp hclosing with rfl | rfl <;> cases top <;> rfl
      · rcases hle.lt_or_eq with hlt | heq
        · exact Or.inl hlt
        · exact Or.inr ⟨hsuffix.eq_of_length heq, hclosing⟩
    have hstep : jams doubles (.at top outer .value) (c :: rest) =
        jams doubles (stepValue doubles top outer c rest) rest := rfl
    rw [if_neg hclosing, hstep, stepValue]
    by_cases hquote : c = quote
    · rw [if_pos hquote, if_pos hquote]
      have hstring := jams_parseValueString doubles top outer false rest
      cases hparse : parseValueString false rest with
      | none =>
        rw [hparse] at hstring
        exact hstring
      | some r =>
        rw [hparse] at hstring
        exact valueAgrees_resync _ hstring.1 (hstring.2.trans hlength)
    rw [if_neg hquote, if_neg hquote]
    by_cases hnumber : isNumber c = true
    · rw [if_pos hnumber, if_pos hnumber]
      cases hparse : parseValueNumber doubles (c :: rest) with
      | none => exact jams_finished rest
      | some r =>
        obtain ⟨value, rest'⟩ := r
        obtain ⟨hjam, hless⟩ := jams_parseValueNumber top outer hparse
        have hspan : c ∈ (numberSpan (c :: rest)).1 := by
          rw [numberSpan, if_pos (Or.inl hnumber)]
          exact List.mem_cons_self
        have hdelimiter := not_isDelimiter_of_mem_numberSpan c hspan
        refine valueAgrees_resync value ?_ (hless.trans_le hle)
        rw [← hjam]
        exact (jams_append_delimiter (p := [c]) (by simpa using hdelimiter) rest).symm
    rw [if_neg hnumber, if_neg hnumber]
    have hdrop : ∀ n, (rest.drop n).length < s.length := by
      intro n
      rw [List.length_drop]
      omega
    by_cases htrue : isTrue (c :: rest) = true
    · rw [if_pos htrue, if_pos (Or.inl htrue)]
      exact valueAgrees_resync _ (jams_word htrue (by decide) (forall_of_all (by decide))) (hdrop 3)
    by_cases hfalse : isFalse (c :: rest) = true
    · rw [if_neg htrue, if_pos hfalse, if_pos (Or.inr (Or.inl hfalse))]
      exact valueAgrees_resync _
        (jams_word hfalse (by decide) (forall_of_all (by decide))) (hdrop 4)
    by_cases hnull : isNull (c :: rest) = true
    · rw [if_neg htrue, if_neg hfalse, if_pos hnull, if_pos (Or.inr (Or.inr hnull))]
      exact valueAgrees_resync _ (jams_word hnull (by decide) (forall_of_all (by decide))) (hdrop 3)
    have hword : ¬ (isTrue (c :: rest) = true ∨ isFalse (c :: rest) = true ∨
        isNull (c :: rest) = true) := not_or.mpr ⟨htrue, not_or.mpr ⟨hfalse, hnull⟩⟩
    rw [if_neg htrue, if_neg hfalse, if_neg hnull, if_neg hword]
    by_cases hbrace : c = openBrace
    · rw [if_pos hbrace, if_pos hbrace]
      exact valueAgrees_loop (hobject (top :: outer) [] rest) (fun h => by omega) hlength
    · have hbracket : c = openBracket := by
        have hhead := (skipToValue_head hskip).resolve_right hclosing
        simpa [startsValue, hquote, hnumber, htrue, hfalse, hnull, hbrace] using hhead
      rw [if_neg hbrace, if_neg hbrace, if_pos hbracket]
      exact valueAgrees_loop (harray (top :: outer) [] rest) (fun h => by omega) hlength

/-- **The scan and the machine agree**, however much fuel there is. -/
theorem agrees (fuel : ℕ) :
    ObjectAgrees doubles fuel ∧ ArrayAgrees doubles fuel ∧ ValueAgreesAt doubles fuel := by
  induction fuel with
  | zero =>
    refine ⟨fun outer fields s henough => ?_, fun outer elements s henough => ?_,
      fun top outer s henough => ?_⟩ <;> exact absurd henough (by omega)
  | succ fuel ih =>
    obtain ⟨hobject, harray, hvalue⟩ := ih
    exact ⟨objectAgrees_succ hobject hvalue, arrayAgrees_succ harray hvalue,
      valueAgreesAt_succ hobject harray⟩

/-- A loop agrees with a machine that stands inside the one open bracket. -/
theorem loop_terminates_iff {out : ℕ → Scan Json} {jam : Bool} {rest : List UInt8}
    (h : ∀ fuel, LoopAgrees (2 * rest.length + 2 ≤ fuel) (out fuel) jam
      (jams doubles (close [])) rest) :
    (∃ fuel, out fuel ≠ .running) ↔ jam = false := by
  constructor
  · rintro ⟨fuel, hout⟩
    have hagrees := h fuel
    cases hscan : out fuel with
    | running => exact absurd hscan hout
    | invalid =>
      rw [hscan] at hagrees
      exact hagrees
    | ok value rest' =>
      rw [hscan] at hagrees
      exact hagrees.1.trans (jams_finished rest')
  · intro hjam
    refine ⟨2 * rest.length + 2, fun hout => ?_⟩
    have hagrees := h (2 * rest.length + 2)
    rw [hout] at hagrees
    exact Bool.false_ne_true (hjam.symm.trans (hagrees le_rfl))

end Scanner

namespace JsonParse

open Scanner

variable {doubles : DoubleText}

theorem exists_isSome_parse_iff (s : List UInt8) :
    (∃ fuel, (parse doubles fuel s).isSome) ↔ ¬ Jams doubles s := by
  cases s with
  | nil => exact iff_of_true ⟨0, rfl⟩ id
  | cons c s =>
    rw [Jams]
    simp only [parse]
    cases (c :: s).dropWhile fun c => c ≠ openBrace ∧ c ≠ openBracket with
    | nil => exact iff_of_true ⟨0, rfl⟩ id
    | cons d rest =>
      dsimp only
      simp only [isSome_resultOf, Bool.not_eq_true]
      by_cases hbrace : d = openBrace
      · simp only [if_pos hbrace]
        exact loop_terminates_iff fun fuel => (agrees fuel).1 [] [] rest
      · simp only [if_neg hbrace]
        exact loop_terminates_iff fun fuel => (agrees fuel).2.1 [] [] rest

/-- **The texts the scan comes to an end on**: those the machine does not jam on. -/
theorem terminates_iff_not_jams (s : List UInt8) :
    Terminates doubles s ↔ ¬ Jams doubles s := by
  rw [Terminates]
  exact exists_isSome_parse_iff s

/-- **A brace in an array**: no amount of fuel is enough for it. -/
theorem not_terminates_braceInArray : ¬ ∃ doubles, Terminates doubles (text "[\x7d") := by
  rintro ⟨doubles, fuel, h⟩
  have hparse : parse doubles fuel (text "[\x7d") = none := by
    change resultOf (parseArray doubles fuel [] [closeBrace]) = none
    rw [parseArray_closeBrace]
    rfl
  rw [hparse] at h
  exact Bool.false_ne_true h

end JsonParse

end TradingEngine
