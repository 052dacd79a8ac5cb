import Mathlib.Data.List.TakeWhile
import TradingEngine.Http.ResponseParser

/-!
# Http/WireFormat — well-formed responses, and how their parts are read

A `WireResponse` is what a server may send: its fields, size lines and trailers carry what makes
them well formed.  Each part is read as what it says.
-/

namespace TradingEngine

open Ascii HttpsClientResponse

/-- Two texts that are joined by a line end. -/
def joinLines (first : List UInt8) (lines : List (List UInt8)) : List UInt8 :=
  first ++ lines.flatMap (crlf ++ ·)

/-! ## The parts of a response -/

/-- A header field: a name without blanks, and a value with blanks around it. -/
structure HeaderField where
  name : List UInt8
  before : List UInt8
  value : List UInt8
  after : List UInt8
  name_char : ∀ c ∈ name, c ≠ colon ∧ c ≠ cr ∧ c ≠ lf ∧ c ≠ 0 ∧ isBlank c = false
  before_blank : ∀ c ∈ before, isBlank c = true
  value_char : ∀ c ∈ value, c ≠ cr ∧ c ≠ lf
  value_head : ∀ c ∈ value.head?, isBlank c = false
  value_last : ∀ c ∈ value.getLast?, isBlank c = false
  after_blank : ∀ c ∈ after, isBlank c = true

namespace HeaderField

/-- The line of a field. -/
def line (field : HeaderField) : List UInt8 :=
  field.name ++ colon :: (field.before ++ field.value ++ field.after)

/-- `Content-Length`, in any case. -/
def isLength (field : HeaderField) : Bool := sameName field.name (text "Content-Length")

/-- `Transfer-Encoding: chunked`, in any case. -/
def isChunked (field : HeaderField) : Bool :=
  sameName field.name (text "Transfer-Encoding") ∧ asksChunked field.value

/-- The headers with the value of a field under its name. -/
def store (headers : List UInt8 → Option (List UInt8)) (field : HeaderField) :
    List UInt8 → Option (List UInt8) :=
  Function.update headers field.name (some field.value)

/-- The content length behind a field. -/
def count (n : ℤ) (field : HeaderField) : ℤ :=
  if field.isLength then ofDecimal field.value else if field.isChunked then 0 else n

/-- The value is a number below 2^31. -/
def Numeric (field : HeaderField) : Prop :=
  field.value ≠ [] ∧ (∀ c ∈ field.value, isDigit c = true) ∧ ofDecimal field.value < 2 ^ 31

end HeaderField

/-- The head of a response. -/
structure WireHead where
  code : List UInt8
  reason : List UInt8
  fields : List HeaderField
  code_digits : code.length = 3 ∧ ∀ c ∈ code, isDigit c = true
  reason_char : ∀ c ∈ reason, c ≠ cr ∧ c ≠ lf
  numeric : ∀ field ∈ fields, field.isLength = true → field.Numeric

namespace WireHead

def statusLine (head : WireHead) : List UInt8 :=
  text "HTTP/1.1" ++ space :: (head.code ++ space :: head.reason)

/-- The lines of the head. -/
def block (head : WireHead) : List UInt8 :=
  joinLines head.statusLine (head.fields.map HeaderField.line)

def bytes (head : WireHead) : List UInt8 := head.block ++ headEnd

/-- The value of the last field of a name. -/
def headers (head : WireHead) (name : List UInt8) : Option (List UInt8) :=
  (head.fields.reverse.find? fun field => field.name = name).map (·.value)

/-- The response of the head, with a body. -/
def response (head : WireHead) (body : List UInt8) (isComplete : Bool) : HttpsClientResponse :=
  ⟨ofDecimal head.code, head.reason, head.headers, body, isComplete⟩

/-- A field asks for chunks. -/
def isChunked (head : WireHead) : Bool := head.fields.any HeaderField.isChunked

/-- The content length the parser has behind the head. -/
def contentLength (head : WireHead) : ℤ := head.fields.foldl HeaderField.count 0

end WireHead

/-- The line in front of a chunk: at most 15 hexadecimal digits, blanks and an extension. -/
structure SizeLine where
  digits : List UInt8
  blanks : List UInt8
  extension : List UInt8
  digits_ne : digits ≠ []
  digits_length : digits.length ≤ 15
  digits_hex : ∀ c ∈ digits, (hexDigit c).isSome
  blanks_blank : ∀ c ∈ blanks, isBlank c = true
  extension_head : ∀ c ∈ extension.head?, c = semicolon
  extension_char : cr ∉ extension

namespace SizeLine

def line (size : SizeLine) : List UInt8 := size.digits ++ (size.blanks ++ size.extension)

/-- The number the digits stand for. -/
def size (size : SizeLine) : ℕ := value 16 (size.digits.map fun c => (hexDigit c).getD 0)

end SizeLine

/-- A chunk with data. -/
structure Chunk where
  sizeLine : SizeLine
  data : List UInt8
  data_ne : data ≠ []
  data_length : sizeLine.size = data.length

def Chunk.bytes (chunk : Chunk) : List UInt8 := chunk.sizeLine.line ++ crlf ++ (chunk.data ++ crlf)

/-- The last chunk, and the trailers. -/
structure LastChunk where
  sizeLine : SizeLine
  trailers : List (List UInt8)
  size_zero : sizeLine.size = 0
  trailer_char : ∀ trailer ∈ trailers, trailer ≠ [] ∧ cr ∉ trailer

namespace LastChunk

/-- The trailers, each with its line end, and the empty line. -/
def trailerPart (last : LastChunk) : List UInt8 := last.trailers.flatMap (· ++ crlf) ++ crlf

def bytes (last : LastChunk) : List UInt8 := last.sizeLine.line ++ crlf ++ last.trailerPart

end LastChunk

/-- How the end of a body is found. -/
inductive Framing
  | length (body : List UInt8)
  | chunked (chunks : List Chunk) (last : LastChunk)

namespace Framing

def bytes : Framing → List UInt8
  | .length body => body
  | .chunked chunks last => chunks.flatMap Chunk.bytes ++ last.bytes

def body : Framing → List UInt8
  | .length body => body
  | .chunked chunks _ => chunks.flatMap Chunk.data

/-- The head says how the body is framed. -/
def FramedBy (framing : Framing) (head : WireHead) : Prop :=
  match framing with
  | .length body =>
    head.isChunked = false ∧ (∃ field ∈ head.fields, field.isLength = true) ∧
      ∀ field ∈ head.fields, field.isLength = true → ofDecimal field.value = body.length
  | .chunked _ _ => head.isChunked = true

instance (framing : Framing) (head : WireHead) : Decidable (framing.FramedBy head) :=
  match framing with
  | .length _ => inferInstanceAs (Decidable (_ ∧ _ ∧ _))
  | .chunked _ _ => inferInstanceAs (Decidable (_ = true))

end Framing

/-- A response that is framed by `Content-Length` or by chunks. -/
structure WireResponse where
  head : WireHead
  framing : Framing
  framed : framing.FramedBy head

namespace WireResponse

def bytes (response : WireResponse) : List UInt8 := response.head.bytes ++ response.framing.bytes

/-- What the client should get. -/
def received (response : WireResponse) : HttpsClientResponse :=
  response.head.response response.framing.body true

end WireResponse

/-! ## Lines -/

theorem getLines_append {line : List UInt8} (h : lf ∉ line) (s : List UInt8) :
    getLines (line ++ lf :: s) = line :: getLines s := by
  induction line with
  | nil => rw [List.nil_append, getLines, if_pos rfl]
  | cons c line ih =>
    obtain ⟨hne, hmem⟩ := List.ne_and_not_mem_of_not_mem_cons h
    rw [List.cons_append, getLines, if_neg hne.symm, ih hmem]

theorem getLines_last {line : List UInt8} (h : lf ∉ line) (hne : line ≠ []) :
    getLines line = [line] := by
  induction line with
  | nil => exact absurd rfl hne
  | cons c line ih =>
    obtain ⟨hc, hmem⟩ := List.ne_and_not_mem_of_not_mem_cons h
    rw [getLines, if_neg hc.symm]
    cases line with
    | nil => rfl
    | cons d line => rw [ih hmem (List.cons_ne_nil d line)]

theorem popCr_append (line : List UInt8) : popCr (line ++ [cr]) = line := by
  rw [popCr, if_pos List.getLast?_concat, List.dropLast_concat]

theorem popCr_of_notMem {line : List UInt8} (h : cr ∉ line) : popCr line = line := by
  rw [popCr, if_neg]
  exact fun hlast => h (List.mem_of_mem_getLast? hlast)

theorem joinLines_cons (first line : List UInt8) (lines : List (List UInt8)) :
    joinLines first (line :: lines) = first ++ (crlf ++ joinLines line lines) := by
  rw [joinLines, joinLines, List.flatMap_cons, List.append_assoc crlf]

/-- A text that may stand in a line. -/
def LineText (line : List UInt8) : Prop := line ≠ [] ∧ cr ∉ line ∧ lf ∉ line

/-- **The lines are read back.** -/
theorem getLines_joinLines {first : List UInt8} {lines : List (List UInt8)}
    (hfirst : LineText first) (h : ∀ line ∈ lines, LineText line) :
    (getLines (joinLines first lines)).map popCr = first :: lines := by
  induction lines generalizing first with
  | nil =>
    rw [joinLines, List.flatMap_nil, List.append_nil, getLines_last hfirst.2.2 hfirst.1]
    exact congrArg (· :: []) (popCr_of_notMem hfirst.2.1)
  | cons line lines ih =>
    have hcr : lf ∉ first ++ [cr] := by
      rw [List.mem_append]
      rintro (hmem | hmem)
      · exact hfirst.2.2 hmem
      · exact absurd (List.mem_singleton.mp hmem) (by decide)
    have hjoin : joinLines first (line :: lines) = first ++ [cr] ++ lf :: joinLines line lines := by
      rw [joinLines_cons, List.append_assoc]
      rfl
    rw [hjoin, getLines_append hcr, List.map_cons, popCr_append,
      ih (h line List.mem_cons_self) fun line' hmem => h line' (List.mem_cons_of_mem line hmem)]

/-- **The empty line is found** behind lines that are not empty. -/
theorem cut_headEnd {first : List UInt8} {lines : List (List UInt8)} (hfirst : cr ∉ first)
    (h : ∀ line ∈ lines, line ≠ [] ∧ cr ∉ line) :
    cut headEnd (joinLines first lines ++ headEnd) = some (joinLines first lines, []) := by
  induction lines generalizing first with
  | nil =>
    rw [joinLines, List.flatMap_nil, List.append_nil]
    exact cut_of_notMem_mark hfirst [lf, cr, lf] []
  | cons line lines ih =>
    obtain ⟨hne, hcr⟩ := h line List.mem_cons_self
    obtain ⟨c, tail, rfl⟩ := List.exists_cons_of_ne_nil hne
    have hc : cr ≠ c := (List.ne_and_not_mem_of_not_mem_cons hcr).1
    have hrest := ih hcr fun line' hmem => h line' (List.mem_cons_of_mem _ hmem)
    -- the line end is passed over, since another line starts behind it
    have hskip : cut headEnd (cr :: lf :: (joinLines (c :: tail) lines ++ headEnd)) =
        some (cr :: lf :: joinLines (c :: tail) lines, []) := by
      have hmark : ¬ headEnd <+: cr :: lf :: (joinLines (c :: tail) lines ++ headEnd) := by
        intro hpre
        have hpre' := (List.cons_prefix_cons.mp (List.cons_prefix_cons.mp hpre).2).2
        exact hc (List.cons_prefix_cons.mp hpre').1
      have hmark' : ¬ headEnd <+: lf :: (joinLines (c :: tail) lines ++ headEnd) := by
        intro hpre
        exact absurd (List.cons_prefix_cons.mp hpre).1 (by decide)
      rw [cut, if_neg hmark, cut, if_neg hmark', hrest]
      rfl
    rw [joinLines_cons, List.append_assoc]
    refine (cut_of_notMem hfirst [lf, cr, lf] _).trans ?_
    exact congrArg (Option.map fun r => (first ++ r.1, r.2)) hskip

/-! ## Blanks and numbers -/

/-- **Blanks around a text are trimmed.** -/
theorem trim_blanks {before value after : List UInt8} (hbefore : ∀ c ∈ before, isBlank c = true)
    (hhead : ∀ c ∈ value.head?, isBlank c = false) (hlast : ∀ c ∈ value.getLast?, isBlank c = false)
    (hafter : ∀ c ∈ after, isBlank c = true) : trim (before ++ value ++ after) = value := by
  rw [trim, List.rdropWhile]
  cases value with
  | nil =>
    have hall : ∀ c ∈ before ++ [] ++ after, isBlank c = true := by
      intro c hc
      rw [List.append_nil, List.mem_append] at hc
      exact hc.elim (hbefore c) (hafter c)
    rw [List.dropWhile_eq_nil_iff.mpr hall]
    rfl
  | cons c value =>
    have hfront := (span_append (t := c :: value ++ after) hbefore fun d hd => hhead d hd).2
    have hreverse : ∀ d ∈ (c :: value).reverse.head?, isBlank d = false := by
      intro d hd
      rw [List.head?_reverse] at hd
      exact hlast d hd
    have hback := (span_append (fun d hd => hafter d (List.mem_reverse.mp hd)) hreverse).2
    rw [List.append_assoc, hfront, List.reverse_append, hback, List.reverse_reverse]

/-- A numeral without a sign. -/
theorem signedDigits_digits {numeral rest : List UInt8} (hne : numeral ≠ [])
    (h : ∀ c ∈ numeral, isDigit c = true) (hrest : ∀ c ∈ rest.head?, isDigit c = false) :
    signedDigits (numeral ++ rest) = some ((ofDecimal numeral : ℤ), rest) := by
  obtain ⟨htake, hdrop⟩ := span_append h hrest
  obtain ⟨c, tail, rfl⟩ := List.exists_cons_of_ne_nil hne
  have hc := h c List.mem_cons_self
  have hsign : ∀ d : UInt8, isDigit d = false → (c :: tail ++ rest).head? ≠ some d := by
    intro d hd heq
    rw [List.cons_append, List.head?_cons, Option.some_inj] at heq
    rw [← heq, hc] at hd
    exact Bool.false_ne_true hd.symm
  have hminus := hsign minus rfl
  have hplus := hsign 43 rfl
  rw [signedDigits]
  simp only [hminus, hplus, or_self, if_false, htake, hdrop, hne]

/-- `std::stoi` on a numeral. -/
theorem stoi_numeral {numeral : List UInt8} (hne : numeral ≠ [])
    (h : ∀ c ∈ numeral, isDigit c = true) :
    stoi numeral = if IsInt (ofDecimal numeral) then some (ofDecimal numeral : ℤ) else none := by
  have hend : ∀ c ∈ ([] : List UInt8).head?, isDigit c = false := fun c hc =>
    absurd hc (Option.not_mem_none c)
  have hread := signedDigits_digits hne h hend
  rw [List.append_nil] at hread
  obtain ⟨c, tail, rfl⟩ := List.exists_cons_of_ne_nil hne
  have hspace := isSpace_of_isDigit (h c List.mem_cons_self)
  rw [stoi, List.dropWhile_cons_of_neg (by simp [hspace]), hread]

/-- It reads a number below 2^31. -/
theorem stoi_digits {numeral : List UInt8} (hne : numeral ≠ [])
    (h : ∀ c ∈ numeral, isDigit c = true) (hlt : ofDecimal numeral < 2 ^ 31) :
    stoi numeral = some (ofDecimal numeral : ℤ) := by
  rw [stoi_numeral hne h, if_pos]
  exact ⟨by omega, by omega⟩

/-! ## The head -/

variable {head : WireHead}

/-- **The status line is read.** -/
theorem parseStatusLine_statusLine (resp : HttpsClientResponse) :
    parseStatusLine head.statusLine resp =
      { resp with statusCode := ofDecimal head.code, statusMessage := head.reason } := by
  obtain ⟨hlength, hdigits⟩ := head.code_digits
  have hcode : head.code ≠ [] := List.ne_nil_of_length_eq_add_one hlength
  obtain ⟨c, tail, hcons⟩ := List.exists_cons_of_ne_nil hcode
  have hspace := isSpace_of_isDigit (hdigits c (hcons ▸ List.mem_cons_self))
  have hversion : (head.statusLine.dropWhile isSpace).dropWhile (fun c => !isSpace c) =
      space :: (head.code ++ space :: head.reason) := by
    have hskip : head.statusLine.dropWhile isSpace = head.statusLine :=
      List.dropWhile_cons_of_neg (by decide)
    have hall : ∀ c ∈ text "HTTP/1.1", (!isSpace c) = true := forall_of_all (by decide)
    rw [hskip]
    exact (span_append hall fun d hd => by cases hd; rfl).2
  have hnumber : (space :: (head.code ++ space :: head.reason)).dropWhile isSpace =
      head.code ++ space :: head.reason := by
    rw [List.dropWhile_cons_of_pos (by decide), hcons, List.cons_append,
      List.dropWhile_cons_of_neg (by simp [hspace])]
  have hlt : ofDecimal head.code < 2 ^ 31 := by
    have := ofDecimal_lt hdigits
    rw [hlength] at this
    omega
  have hextract : extractInt (head.code ++ space :: head.reason) =
      ((ofDecimal head.code : ℤ), some (space :: head.reason)) := by
    rw [extractInt, signedDigits_digits hcode hdigits fun d hd => by cases hd; rfl]
    dsimp only
    rw [if_pos]
    exact ⟨by omega, by omega⟩
  have hline : (space :: head.reason).takeWhile (fun c => decide (c ≠ lf)) =
      space :: head.reason := by
    rw [List.takeWhile_eq_self_iff]
    intro d hd
    rcases List.mem_cons.mp hd with heq | hmem
    · rw [heq]
      rfl
    · exact decide_eq_true (head.reason_char d hmem).2
  have hstatus : extractStatus head.statusLine resp =
      { resp with statusCode := ofDecimal head.code, statusMessage := space :: head.reason } := by
    rw [extractStatus, hversion, hnumber, if_neg (by simp), hextract]
    dsimp only
    rw [hline]
  rw [parseStatusLine, hstatus]
  rfl

theorem sameName_ne {name : List UInt8} (h : sameName name (text "Content-Length") = true) :
    sameName name (text "Transfer-Encoding") = false := by
  rw [sameName, decide_eq_true_iff] at h
  rw [sameName, decide_eq_false_iff_not, h]
  decide

/-- **A field is read**: its value is stored under its name. -/
theorem parseField_line (field : HeaderField) (hnumeric : field.isLength = true → field.Numeric)
    (parsed : Head) :
    parseField parsed field.line = some
      { response :=
          { parsed.response with headers := HeaderField.store parsed.response.headers field }
        contentLength := HeaderField.count parsed.contentLength field
        isChunked := parsed.isChunked || field.isChunked } := by
  have hname : ∀ c ∈ field.name, decide (c ≠ colon) = true := fun c hc =>
    decide_eq_true (field.name_char c hc).1
  obtain ⟨htake, hdrop⟩ := span_append (t := colon :: (field.before ++ field.value ++ field.after))
    hname fun c hc => by cases hc; rfl
  have hkey : trim field.name = field.name := by
    have hnone : ∀ c ∈ ([] : List UInt8), isBlank c = true := fun c hc =>
      absurd hc List.not_mem_nil
    have htrim := trim_blanks hnone
      (fun c hc => (field.name_char c (List.mem_of_mem_head? hc)).2.2.2.2)
      (fun c hc => (field.name_char c (List.mem_of_mem_getLast? hc)).2.2.2.2) hnone
    rwa [List.nil_append, List.append_nil] at htrim
  have hvalue := trim_blanks field.before_blank field.value_head field.value_last field.after_blank
  have hcolon : colon ∈ field.line := List.mem_append_right _ List.mem_cons_self
  rw [HeaderField.count, HeaderField.store, HeaderField.isLength, HeaderField.isChunked]
  rw [HeaderField.isLength] at hnumeric
  rw [parseField, if_pos hcolon, HeaderField.line, htake, hdrop, List.tail_cons, hkey, hvalue]
  by_cases hlength : sameName field.name (text "Content-Length") = true
  · obtain ⟨hne, hdigits, hlt⟩ := hnumeric hlength
    simp [hlength, sameName_ne hlength, stoi_digits hne hdigits hlt]
  · by_cases hchunked : sameName field.name (text "Transfer-Encoding") = true ∧
        asksChunked field.value = true
    · simp [hlength, hchunked]
    · simp [hlength, hchunked]

/-- The fields are read one after the other. -/
theorem foldlM_parseField {fields : List HeaderField}
    (hnumeric : ∀ field ∈ fields, field.isLength = true → field.Numeric) (parsed : Head) :
    (fields.map HeaderField.line).foldlM parseField parsed = some
      { response := { parsed.response with
          headers := fields.foldl HeaderField.store parsed.response.headers }
        contentLength := fields.foldl HeaderField.count parsed.contentLength
        isChunked := parsed.isChunked || fields.any HeaderField.isChunked } := by
  induction fields generalizing parsed with
  | nil => simp
  | cons field fields ih =>
    have hfield := parseField_line field (hnumeric field List.mem_cons_self) parsed
    rw [List.map_cons, List.foldlM_cons, hfield]
    refine (ih (fun f hf => hnumeric f (List.mem_cons_of_mem field hf)) _).trans ?_
    rw [List.any_cons, Bool.or_assoc]
    rfl

/-- What is stored under a name is the value of the last field of it. -/
theorem foldl_store {fields : List HeaderField} (headers : List UInt8 → Option (List UInt8))
    (name : List UInt8) :
    fields.foldl HeaderField.store headers name =
      ((fields.reverse.find? fun field => field.name = name).map (·.value)).or (headers name) := by
  induction fields generalizing headers with
  | nil => rfl
  | cons field fields ih =>
    rw [List.foldl_cons, ih, List.reverse_cons, List.find?_append]
    cases fields.reverse.find? fun field => field.name = name with
    | some found => rfl
    | none =>
      rw [List.find?_singleton, HeaderField.store]
      by_cases hname : field.name = name
      · simp [hname]
      · simp [hname, Function.update_of_ne (Ne.symm hname)]

theorem LineText.of_forall {line : List UInt8} (hne : line ≠ []) (h : ∀ c ∈ line, c ≠ cr ∧ c ≠ lf) :
    LineText line :=
  ⟨hne, fun hmem => (h cr hmem).1 rfl, fun hmem => (h lf hmem).2 rfl⟩

theorem ne_of_isBlank {c : UInt8} (h : isBlank c = true) : c ≠ cr ∧ c ≠ lf ∧ c ≠ semicolon := by
  rw [isBlank, decide_eq_true_iff] at h
  rcases h with rfl | rfl <;> decide

theorem ne_of_isDigit {c : UInt8} (h : isDigit c = true) : c ≠ cr ∧ c ≠ lf := by
  constructor <;> rintro rfl <;> exact Bool.false_ne_true h

theorem lineText_line (field : HeaderField) : LineText field.line := by
  refine .of_forall (List.append_ne_nil_of_right_ne_nil _ (List.cons_ne_nil _ _)) fun c hc => ?_
  rw [HeaderField.line, List.mem_append, List.mem_cons, List.mem_append, List.mem_append] at hc
  rcases hc with hname | heq | (hbefore | hvalue) | hafter
  · have hchar := field.name_char c hname
    exact ⟨hchar.2.1, hchar.2.2.1⟩
  · rw [heq]
    decide
  · have hblank := ne_of_isBlank (field.before_blank c hbefore)
    exact ⟨hblank.1, hblank.2.1⟩
  · exact field.value_char c hvalue
  · have hblank := ne_of_isBlank (field.after_blank c hafter)
    exact ⟨hblank.1, hblank.2.1⟩

theorem lineText_statusLine : LineText head.statusLine := by
  refine .of_forall (List.append_ne_nil_of_right_ne_nil _ (List.cons_ne_nil _ _)) fun c hc => ?_
  have hversion : ∀ c ∈ text "HTTP/1.1", c ≠ cr ∧ c ≠ lf := forall_of_all (by decide)
  rw [WireHead.statusLine, List.mem_append, List.mem_cons, List.mem_append, List.mem_cons] at hc
  rcases hc with hmem | heq | hcode | heq | hreason
  · exact hversion c hmem
  · rw [heq]
    decide
  · exact ne_of_isDigit (head.code_digits.2 c hcode)
  · rw [heq]
    decide
  · exact head.reason_char c hreason

/-- **The head is read.** -/
theorem parseHeader_block :
    parseHeader head.block ParserState.reset.head =
      .parsed ⟨head.response [] false, head.contentLength, head.isChunked⟩ := by
  have hlines : (getLines head.block).map popCr =
      head.statusLine :: head.fields.map HeaderField.line := by
    refine getLines_joinLines lineText_statusLine fun line hmem => ?_
    obtain ⟨field, -, rfl⟩ := List.mem_map.mp hmem
    exact lineText_line field
  have hheaders : head.fields.foldl HeaderField.store (fun _ => none) = head.headers := by
    funext name
    rw [foldl_store, Option.or_none]
    rfl
  rw [parseHeader, hlines]
  dsimp only
  rw [parseStatusLine_statusLine, foldlM_parseField head.numeric]
  dsimp only [ParserState.reset, HttpsClientResponse.reset]
  rw [hheaders, Bool.false_or]
  rfl

/-- The head ends at its empty line. -/
theorem cut_block : cut headEnd head.bytes = some (head.block, []) := by
  refine cut_headEnd lineText_statusLine.2.1 fun line hmem => ?_
  obtain ⟨field, -, rfl⟩ := List.mem_map.mp hmem
  exact ⟨(lineText_line field).1, (lineText_line field).2.1⟩

/-! ## Chunks -/

theorem hexDigit_lt {c : UInt8} {d : ℕ} (h : hexDigit c = some d) : d < 16 := by
  rw [hexDigit] at h
  simp only [UInt8.le_iff_toNat_le] at h
  split_ifs at h with hdigit hsmall hcapital <;> cases h
  · have h57 : (57 : UInt8).toNat = 57 := rfl
    omega
  · have h102 : (102 : UInt8).toNat = 102 := rfl
    omega
  · have h70 : (70 : UInt8).toNat = 70 := rfl
    omega

/-- The digits are added up, and the sum wraps. -/
theorem foldlM_hexDigit {s : List UInt8} (h : ∀ c ∈ s, (hexDigit c).isSome) (v : ℕ) :
    s.foldlM (fun v c => (hexDigit c).map fun d => (v <<< 4 + d) % 2 ^ 64) (v % 2 ^ 64) =
      some ((s.map fun c => (hexDigit c).getD 0).foldl (fun n d => n * 16 + d) v % 2 ^ 64) := by
  induction s generalizing v with
  | nil => rfl
  | cons c s ih =>
    obtain ⟨d, hd⟩ := Option.isSome_iff_exists.mp (h c List.mem_cons_self)
    have hstep : ((v % 2 ^ 64) <<< 4 + d) % 2 ^ 64 = (v * 16 + d) % 2 ^ 64 := by
      rw [Nat.shiftLeft_eq]
      omega
    rw [List.foldlM_cons, hd, Option.map_some, hstep, List.map_cons, List.foldl_cons]
    have hrest := ih (fun c' hc' => h c' (List.mem_cons_of_mem c hc')) (v * 16 + d)
    exact hrest.trans (by rw [hd]; rfl)

theorem hexDigit_char {c : UInt8} (h : (hexDigit c).isSome) :
    c ≠ semicolon ∧ isBlank c = false := by
  have hne : ∀ d, hexDigit d = none → c ≠ d := by
    rintro d hd rfl
    rw [hd] at h
    exact Bool.false_ne_true h
  refine ⟨hne semicolon rfl, ?_⟩
  rw [isBlank, decide_eq_false_iff_not, not_or]
  exact ⟨hne space rfl, hne tab rfl⟩

/-- **A size line is read.** -/
theorem sizeOfLine_line (size : SizeLine) : sizeOfLine size.line = some size.size := by
  have hchar : ∀ c ∈ size.digits ++ size.blanks, decide (c ≠ semicolon) = true := by
    intro c hc
    rcases List.mem_append.mp hc with hdigit | hblank
    · exact decide_eq_true (hexDigit_char (size.digits_hex c hdigit)).1
    · exact decide_eq_true (ne_of_isBlank (size.blanks_blank c hblank)).2.2
  have hspan := (span_append hchar fun c hc => by rw [size.extension_head c hc]; rfl).1
  rw [List.append_assoc] at hspan
  have hnone : ∀ c ∈ ([] : List UInt8), isBlank c = true := fun c hc => absurd hc List.not_mem_nil
  have htrim := trim_blanks hnone
    (fun c hc => (hexDigit_char (size.digits_hex c (List.mem_of_mem_head? hc))).2)
    (fun c hc => (hexDigit_char (size.digits_hex c (List.mem_of_mem_getLast? hc))).2)
    size.blanks_blank
  rw [List.nil_append] at htrim
  -- fifteen digits are not enough for the sum to wrap
  have hlt : size.size < 2 ^ 64 := by
    have hvalue : size.size < 16 ^ (size.digits.map fun c => (hexDigit c).getD 0).length := by
      refine value_lt (by decide) fun d hd => ?_
      obtain ⟨c, hc, rfl⟩ := List.mem_map.mp hd
      obtain ⟨d, hd⟩ := Option.isSome_iff_exists.mp (size.digits_hex c hc)
      rw [hd]
      exact hexDigit_lt hd
    rw [List.length_map] at hvalue
    have hpow : 16 ^ size.digits.length ≤ 16 ^ 15 :=
      Nat.pow_le_pow_right (by decide) size.digits_length
    omega
  have hparse : parseHexSize size.digits = some (size.size % 2 ^ 64) :=
    foldlM_hexDigit size.digits_hex 0
  rw [sizeOfLine, SizeLine.line, hspan, htrim, if_neg size.digits_ne, hparse, Nat.mod_eq_of_lt hlt]

/-- A size line holds no line end. -/
theorem cr_notMem_line (size : SizeLine) : cr ∉ size.line := by
  intro hmem
  rw [SizeLine.line, List.mem_append, List.mem_append] at hmem
  rcases hmem with hdigit | hblank | hextension
  · have hsome := size.digits_hex cr hdigit
    exact Bool.false_ne_true hsome
  · exact (ne_of_isBlank (size.blanks_blank cr hblank)).1 rfl
  · exact size.extension_char hextension

end TradingEngine
