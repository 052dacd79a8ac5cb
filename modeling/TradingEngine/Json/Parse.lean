import TradingEngine.Json.Json

/-!
# Json/Parse — `JsonParseNew`

The scan keeps a position in the text; here it is the rest of the text.  Once `m_is_valid` is false
every caller returns, so a failed scan is `invalid` and nothing else is read of it.  The loops and
calls of `parse_object`, `parse_array` and `parse_value` take fuel; a scan that runs out of it is
still running.
-/

namespace TradingEngine

open Ascii

/-- Where a scan stands: still running, failed, or done with the rest of the text. -/
inductive Scan (α : Type)
  | running
  | invalid
  | ok (value : α) (rest : List UInt8)

/-- The scan goes on from the rest of the text. -/
def Scan.andThen {α β : Type} (scan : Scan α) (f : α → List UInt8 → Scan β) : Scan β :=
  match scan with
  | .running => .running
  | .invalid => .invalid
  | .ok value rest => f value rest

namespace JsonParse

/-! ## The characters -/

/-- `is_number`. -/
def isNumber (c : UInt8) : Bool := isDigit c ∨ c = minus

/-- The word stands here, and the character after it is there and does not stop it. -/
def wordAt (word : List UInt8) (stop : UInt8 → Bool) (s : List UInt8) : Bool :=
  word.isPrefixOf s ∧ (s.drop word.length).head?.any fun c => !stop c

/-- `is_boolean`, for `TRUE_VALUE` and for `FALSE_VALUE`. -/
def isTrue (s : List UInt8) : Bool := wordAt (text "true") isLetter s

def isFalse (s : List UInt8) : Bool := wordAt (text "false") isLetter s

/-- `is_null`. -/
def isNull (s : List UInt8) : Bool := wordAt (text "null") (fun c => isLetter c || isNumber c) s

/-- A closing brace or bracket. -/
def isClosing (c : UInt8) : Bool := c = closeBrace ∨ c = closeBracket

/-- A character the scan stops at after a value. -/
def isDelimiter (c : UInt8) : Bool := c = comma ∨ isClosing c

/-- A character a value starts at. -/
def startsValue (s : List UInt8) : Bool :=
  match s with
  | [] => false
  | c :: _ =>
    c = quote ∨ c = openBrace ∨ c = openBracket ∨ isNumber c ∨ isTrue s ∨ isFalse s ∨ isNull s

/-! ## The parts of a text -/

/-- `parse_key`.  A closing brace before the key reads as the key `"}"`. -/
def parseKey (s : List UInt8) : Option (List UInt8 × List UInt8) :=
  match s.dropWhile fun c => c ≠ quote ∧ c ≠ closeBrace with
  | [] => none
  | c :: rest =>
    if c = closeBrace then some ([closeBrace], rest)
    else
      match rest.dropWhile fun c => c ≠ quote with
      | [] => none
      | _ :: rest' => some (rest.takeWhile fun c => c ≠ quote, rest')

/-- `parse_value_string`: up to a quote that is not escaped. -/
def parseValueString : Bool → List UInt8 → Option (List UInt8 × List UInt8)
  | _, [] => none
  | true, c :: rest => (parseValueString false rest).map fun r => (c :: r.1, r.2)
  | false, c :: rest =>
    if c = backslash then (parseValueString true rest).map fun r => (c :: r.1, r.2)
    else if c = quote then some ([], rest)
    else (parseValueString false rest).map fun r => (c :: r.1, r.2)

/-- The characters of a number, and the rest. -/
def numberSpan : List UInt8 → List UInt8 × List UInt8
  | [] => ([], [])
  | c :: rest =>
    if isNumber c ∨ c = dot ∨ (c = 101 ∧ rest.head? = some minus) then
      (c :: (numberSpan rest).1, (numberSpan rest).2)
    else ([], c :: rest)

/-- `std::from_chars` on an `int64_t`: the longest numeral at the front, if it is in range. -/
def intFromChars (s : List UInt8) : Option ℤ :=
  let negative := s.head? = some minus
  let numeral := (if negative then s.tail else s).takeWhile isDigit
  if numeral = [] then none
  else
    let n : ℤ := if negative then -(ofDecimal numeral : ℤ) else ofDecimal numeral
    if Json.IsInt64 n then some n else none

/-- `parse_value_number`. -/
def parseValueNumber (doubles : DoubleText) (s : List UInt8) : Option (Json × List UInt8) :=
  let span := numberSpan s
  if span.1 = [] then none
  else if dot ∈ span.1 then (doubles.fromChars span.1).map fun x => (.double x, span.2)
  else (intFromChars span.1).map fun n => (.int n, span.2)

/-- The first loop of `parse_value`: to the start of a value or to a closing character. -/
def skipToValue : List UInt8 → List UInt8
  | [] => []
  | c :: rest => if startsValue (c :: rest) ∨ isClosing c then c :: rest else skipToValue rest

/-- The last loop of `parse_value`: to the delimiter after the value. -/
def resync (value : Json) (s : List UInt8) : Scan Json :=
  match s.dropWhile fun c => !isDelimiter c with
  | [] => .invalid
  | c :: rest => .ok value (c :: rest)

/-- A comma after a value is read. -/
def skipComma (s : List UInt8) : List UInt8 := if s.head? = some comma then s.tail else s

/-! ## The containers -/

/-- `res[key] = value`: the key is cut at its first NUL. -/
def setField (fields : List (List UInt8 × Json)) (key : List UInt8) (value : Json) :
    List (List UInt8 × Json) :=
  let key := key.takeWhile fun c => c ≠ 0
  if ∃ f ∈ fields, f.1 = key then fields.map fun f => if f.1 = key then (key, value) else f
  else fields ++ [(key, value)]

/-- The `res` of `parse_object`: null until a field is set. -/
def objectOf (fields : List (List UInt8 × Json)) : Json :=
  if fields.isEmpty then .null else .object fields

/-- The `res` of `parse_array`: null until an element is set. -/
def arrayOf (elements : List Json) : Json :=
  if elements.isEmpty then .null else .array elements

variable (doubles : DoubleText)

mutual

/-- The loop of `parse_object`, with the fields set so far. -/
def parseObject : ℕ → List (List UInt8 × Json) → List UInt8 → Scan Json
  | 0, _, _ => .running
  | fuel + 1, fields, s =>
    match s with
    | [] => .invalid
    | c :: rest =>
      if c = closeBrace then .ok (objectOf fields) rest
      else
        match parseKey s with
        | none => .invalid
        | some (key, afterKey) =>
          if key = [closeBrace] then .ok (objectOf fields) afterKey
          else
            (parseValue fuel afterKey).andThen fun value afterValue =>
              parseObject fuel (setField fields key value) (skipComma afterValue)

/-- The loop of `parse_array`, with the elements set so far. -/
def parseArray : ℕ → List Json → List UInt8 → Scan Json
  | 0, _, _ => .running
  | fuel + 1, elements, s =>
    match s with
    | [] => .invalid
    | c :: rest =>
      if c = closeBracket then .ok (arrayOf elements) rest
      else
        (parseValue fuel s).andThen fun value afterValue =>
          parseArray fuel (elements ++ [value]) (skipComma afterValue)

/-- `parse_value`.  At a closing character it returns null and reads nothing. -/
def parseValue : ℕ → List UInt8 → Scan Json
  | 0, _ => .running
  | fuel + 1, s =>
    match skipToValue s with
    | [] => .invalid
    | c :: rest =>
      if isClosing c then .ok .null (c :: rest)
      else if c = quote then
        match parseValueString false rest with
        | none => .invalid
        | some (value, rest') => resync (.string value) rest'
      else if isNumber c then
        match parseValueNumber doubles (c :: rest) with
        | none => .invalid
        | some (value, rest') => resync value rest'
      else if isTrue (c :: rest) then resync (.bool true) (rest.drop 3)
      else if isFalse (c :: rest) then resync (.bool false) (rest.drop 4)
      else if isNull (c :: rest) then resync .null (rest.drop 3)
      else
        (if c = openBrace then parseObject fuel [] rest else parseArray fuel [] rest).andThen resync

end

/-- What `parse` returns: the value, or null if the scan has failed. -/
def resultOf : Scan Json → Option (Json × Bool)
  | .ok value _ => some (value, true)
  | .invalid => some (.null, false)
  | .running => none

@[simp] theorem isSome_resultOf (out : Scan Json) : (resultOf out).isSome ↔ out ≠ .running := by
  cases out <;> simp [resultOf]

/-- `JsonParseNew::parse`: the value and `m_is_valid`, or `none` while the scan is running. -/
def parse (fuel : ℕ) (s : List UInt8) : Option (Json × Bool) :=
  match s with
  | [] => some (.null, true)
  | _ =>
    match s.dropWhile fun c => c ≠ openBrace ∧ c ≠ openBracket with
    | [] => some (.null, false)
    | c :: rest =>
      resultOf (if c = openBrace then parseObject doubles fuel [] rest
        else parseArray doubles fuel [] rest)

/-- The scan of a text comes to a result. -/
def Terminates (s : List UInt8) : Prop := ∃ fuel, (parse doubles fuel s).isSome

end JsonParse

end TradingEngine
