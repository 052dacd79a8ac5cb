import Mathlib.Data.List.DropRight
import Mathlib.Data.List.Infix
import Mathlib.Logic.Function.Basic
import TradingEngine.Machinery.Ascii

/-!
# Http/Response — the head of a response

`HttpsClientResponseParser::parse_header` goes over the lines of a head with the streams and the
number parsers of the standard library, which are modelled as far as it uses them: `getLines`,
`extractInt`, `stoi`.
-/

namespace TradingEngine

open Ascii

/-- `int`. -/
def IsInt (n : ℤ) : Prop := -2 ^ 31 ≤ n ∧ n < 2 ^ 31

instance (n : ℤ) : Decidable (IsInt n) := inferInstanceAs (Decidable (_ ∧ _))

/-- `HttpsClientResponse`. -/
structure HttpsClientResponse where
  statusCode : ℤ
  statusMessage : List UInt8
  headers : List UInt8 → Option (List UInt8)
  body : List UInt8
  isComplete : Bool

namespace HttpsClientResponse

/-- A new response, and `reset`. -/
def reset : HttpsClientResponse := ⟨0, [], fun _ => none, [], false⟩

/-- A space or a tab. -/
def isBlank (c : UInt8) : Bool := c = space ∨ c = tab

/-- `trim`. -/
def trim (s : List UInt8) : List UInt8 := (s.dropWhile isBlank).rdropWhile isBlank

/-- `to_lower`. -/
def toLower (s : List UInt8) : List UInt8 := s.map lower

end HttpsClientResponse

open HttpsClientResponse

/-! ## The standard library -/

/-- The lines `std::getline` reads. -/
def getLines : List UInt8 → List (List UInt8)
  | [] => []
  | c :: s =>
    if c = lf then [] :: getLines s
    else
      match getLines s with
      | [] => [[c]]
      | line :: lines => (c :: line) :: lines

/-- `strcasecmp(key.c_str(), name) == 0`. -/
def sameName (key name : List UInt8) : Bool :=
  toLower (key.takeWhile fun c => c ≠ 0) = toLower name

/-- A sign and digits, and the rest. -/
def signedDigits (s : List UInt8) : Option (ℤ × List UInt8) :=
  let negative := s.head? = some minus
  let unsigned := if negative ∨ s.head? = some 43 then s.tail else s
  let numeral := unsigned.takeWhile isDigit
  if numeral = [] then none
  else
    some (if negative then -(ofDecimal numeral : ℤ) else ofDecimal numeral,
      unsigned.dropWhile isDigit)

/-- `std::stoi`; it throws if there is no number or if it is out of range. -/
def stoi (s : List UInt8) : Option ℤ :=
  match signedDigits (s.dropWhile isSpace) with
  | none => none
  | some (n, _) => if IsInt n then some n else none

/-- `stream >> n` behind the white space: the value, and the rest if the stream has not failed. -/
def extractInt (s : List UInt8) : ℤ × Option (List UInt8) :=
  match signedDigits s with
  | none => (0, none)
  | some (n, rest) =>
    if IsInt n then (n, some rest) else (if n < 0 then -2 ^ 31 else 2 ^ 31 - 1, none)

/-! ## The head -/

/-- A line without the `'\r'` at its end. -/
def popCr (line : List UInt8) : List UInt8 :=
  if line.getLast? = some cr then line.dropLast else line

/-- What `parse_status_line` extracts from the stream; the rest is left as it was. -/
def extractStatus (line : List UInt8) (resp : HttpsClientResponse) : HttpsClientResponse :=
  let afterVersion := (line.dropWhile isSpace).dropWhile fun c => !isSpace c
  let number := afterVersion.dropWhile isSpace
  if number = [] then resp
  else
    match extractInt number with
    | (code, none) => { resp with statusCode := code }
    | (code, some []) => { resp with statusCode := code }
    | (code, some rest) =>
      { resp with statusCode := code, statusMessage := rest.takeWhile fun c => c ≠ lf }

/-- A text without the space in front of it. -/
def eraseSpace (s : List UInt8) : List UInt8 := if s.head? = some space then s.tail else s

/-- `parse_status_line`. -/
def parseStatusLine (line : List UInt8) (resp : HttpsClientResponse) : HttpsClientResponse :=
  let extracted := extractStatus line resp
  { extracted with statusMessage := eraseSpace extracted.statusMessage }

/-- What `parse_header` sets: the response, `m_content_length` and `m_is_chunked`. -/
structure Head where
  response : HttpsClientResponse
  contentLength : ℤ
  isChunked : Bool

/-- The word `chunked` stands in a value, in any case. -/
def asksChunked (value : List UInt8) : Bool := text "chunked" <:+: toLower value

/-- One header line; `none` if `std::stoi` throws. -/
def parseField (head : Head) (line : List UInt8) : Option Head :=
  if colon ∈ line then
    let key := trim (line.takeWhile fun c => c ≠ colon)
    let value := trim (line.dropWhile fun c => c ≠ colon).tail
    let stored : Head :=
      { head with
        response.headers := Function.update head.response.headers key (some value) }
    let counted :=
      if sameName key (text "Content-Length") then
        (stoi value).map fun n => { stored with contentLength := n }
      else some stored
    counted.map fun counted =>
      if sameName key (text "Transfer-Encoding") ∧ asksChunked value then
        { counted with isChunked := true, contentLength := 0 }
      else counted
  else some head

/-- What `parse_header` comes to. -/
inductive HeaderResult
  | throws
  | rejected
  | parsed (head : Head)

/-- `parse_header`. -/
def parseHeader (block : List UInt8) (head : Head) : HeaderResult :=
  match (getLines block).map popCr with
  | [] => .rejected
  | status :: lines =>
    let started := { head with response := parseStatusLine status head.response }
    match lines.foldlM parseField started with
    | none => .throws
    | some parsed => .parsed parsed

end TradingEngine
